import Mathlib
import CryptoExchange.Risk.Engine

/-!
# What the risk check approves

`evaluateOrder_approves` is the converse of `evaluateOrder_approved`: an order that passes every
check is approved. A smaller notional has a ceiling that is not lower, and so has a higher tier
(`getMaxLeverage_mono`); the margin that an order needs is its notional divided by a leverage that
only rises. So what is approved stays approved when less is asked for (`approval_monotone`).
-/

namespace CryptoExchange

open Lib

/-! ## Tiers -/

/-- The tiers of the tables. -/
inductive Tier where
  | standard
  | professional
  | institutional
  deriving DecidableEq

namespace Tier

def name : Tier → String
  | .standard => "standard"
  | .professional => "professional"
  | .institutional => "institutional"

def rank : Tier → ℕ
  | .standard => 0
  | .professional => 1
  | .institutional => 2

/-- An unknown tier counts as `standard`. -/
def ofString (s : String) : Tier :=
  if s = "institutional" then .institutional
  else if s = "professional" then .professional
  else .standard

end Tier

/-- A table with the names of the tiers is looked up under the tier's name. -/
theorem lookup_tier {α : Type} (a b c : α) (s : String) :
    ([("standard", a), ("professional", b), ("institutional", c)].lookup s = none ∧
        Tier.ofString s = .standard) ∨
      s = (Tier.ofString s).name := by
  by_cases hi : s = "institutional"
  · subst hi; exact .inr rfl
  by_cases hp : s = "professional"
  · subst hp; exact .inr rfl
  rw [Tier.ofString, if_neg hi, if_neg hp]
  by_cases hs : s = "standard"
  · exact .inr hs
  · exact .inl ⟨List.lookup_eq_none_iff.mpr (by simp [hi, hp, hs]), rfl⟩

theorem tierKey_eq (s : String) :
    (if (tierCaps.lookup s).isSome then s else "standard") = (Tier.ofString s).name := by
  rcases lookup_tier (10 : ℤ) 20 50 s with ⟨hnone, hs⟩ | hs
  · rw [hs, tierCaps, hnone]
    rfl
  · rw [← hs, if_pos]
    rw [hs]
    cases Tier.ofString s <;> rfl

theorem userExposureFraction_eq (s : String) :
    (userExposureFraction.lookup s).getD 0.05 =
      (userExposureFraction.lookup (Tier.ofString s).name).getD 0.05 := by
  rcases lookup_tier (0.05 : ℚ) 0.20 0.50 s with ⟨hnone, hs⟩ | hs
  · rw [hs, userExposureFraction, hnone]
    rfl
  · rw [← hs]

/-- A higher tier has a higher cap, no lower ceiling in any bracket, and a larger share. -/
theorem tier_tables {t t' : Tier} (h : t.rank ≤ t'.rank) :
    (tierCaps.lookup t.name).getD 10 ≤ (tierCaps.lookup t'.name).getD 10 ∧
    (∀ b ∈ leverageBrackets, (b.2.lookup t.name).getD 1 ≤ (b.2.lookup t'.name).getD 1) ∧
    (userExposureFraction.lookup t.name).getD 0.05 ≤
      (userExposureFraction.lookup t'.name).getD 0.05 := by
  revert h
  cases t <;> cases t' <;> decide +kernel

/-! ## The ceiling rises with the tier -/

theorem baseLeverage_mono {key key' : String} {cap cap' : ℤ} (hcap : cap ≤ cap') (n : ℚ)
    {bs : List (WithTop ℚ × List (String × ℤ))}
    (hb : ∀ b ∈ bs, (b.2.lookup key).getD 1 ≤ (b.2.lookup key').getD 1) :
    baseLeverage key cap n bs ≤ baseLeverage key' cap' n bs := by
  induction bs with
  | nil => exact le_rfl
  | cons b bs ih =>
    obtain ⟨ceiling, tierMap⟩ := b
    rw [baseLeverage, baseLeverage]
    split
    · exact min_le_min (hb _ List.mem_cons_self) hcap
    · exact ih fun b' hb' => hb b' (List.mem_cons_of_mem _ hb')

/-- A higher tier has no lower ceiling. -/
theorem getMaxLeverage_tier (cfg : Config) (vol : Volatility) {tier tier' : String} (n : ℚ)
    (symbol : String)
    (h : (Tier.ofString (cfg.lower tier)).rank ≤ (Tier.ofString (cfg.lower tier')).rank) :
    getMaxLeverage cfg vol tier n symbol ≤ getMaxLeverage cfg vol tier' n symbol := by
  obtain ⟨hcap, hbrackets, -⟩ := tier_tables h
  unfold getMaxLeverage
  dsimp only
  rw [tierKey_eq, tierKey_eq]
  have hbase := baseLeverage_mono (min_le_min_right (max 1 cfg.maxLeverage) hcap) n hbrackets
  split
  · exact max_le_max_left _ (truncate_modifier_mono cfg vol symbol
      (baseLeverage_pos (tierCap_pos _ _) leverageBrackets (by decide)) hbase)
  · exact hbase

/-- A smaller notional and a higher tier have no lower ceiling. -/
theorem getMaxLeverage_mono (cfg : Config) (vol : Volatility) {tier tier' : String} {n n' : ℚ}
    (symbol : String) (hn : n' ≤ n)
    (h : (Tier.ofString (cfg.lower tier)).rank ≤ (Tier.ofString (cfg.lower tier')).rank) :
    getMaxLeverage cfg vol tier n symbol ≤ getMaxLeverage cfg vol tier' n' symbol :=
  (getMaxLeverage_anti cfg vol tier hn symbol).trans (getMaxLeverage_tier cfg vol n' symbol h)

/-! ## The check -/

section

variable {cfg : Config} {vol : Volatility} {i j : RiskInput}

/-- What an order has to pass. -/
structure Passes (cfg : Config) (vol : Volatility) (i : RiskInput) : Prop where
  size_pos : 0 < i.orderSize
  leverage_pos : 1 ≤ i.leverage cfg vol
  margin : i.orderSize * i.price / i.leverage cfg vol ≤ i.account.balance - i.account.marginUsed
  globalExposure : i.currentGlobalExposure + i.orderSize * i.price ≤ cfg.globalExposureThreshold
  userExposure : i.currentUserExposure + i.orderSize * i.price ≤
    userExposureLimit cfg (riskTier cfg i.user)

/-- An order that passes is approved. -/
theorem evaluateOrder_approves (h : Passes cfg vol i) :
    ∃ a, evaluateOrder cfg vol i = .ok (.approved a) := by
  have hl := h.leverage_pos
  have hmargin := h.margin
  unfold RiskInput.leverage at hl hmargin
  have hl := not_le.mpr (Int.lt_of_lt_of_le one_pos hl)
  unfold evaluateOrder
  rw [if_neg (not_le.mpr h.size_pos)]
  dsimp only
  rw [requiredMargin, if_neg hl]
  dsimp only
  rw [if_neg (not_lt.mpr hmargin), if_neg (not_lt.mpr h.globalExposure),
    if_neg (not_lt.mpr h.userExposure), liquidationPrice, if_neg hl]
  split
  · rename_i e
    split at e <;> cases e
  · exact ⟨_, rfl⟩

theorem Approved.passes {a : Approval} (h : Approved cfg vol i a) : Passes cfg vol i where
  size_pos := h.size_pos
  leverage_pos := h.leverage ▸ h.leverage_pos
  margin := by
    have := h.margin_le
    rw [h.requiredMargin, h.leverage] at this
    linarith
  globalExposure := h.globalExposureAfter ▸ h.global_le
  userExposure := h.userExposureAfter ▸ h.user_le

/-- **The checks are all there is**: an order is approved exactly when it passes them. -/
theorem approved_iff : (∃ a, evaluateOrder cfg vol i = .ok (.approved a)) ↔ Passes cfg vol i :=
  ⟨fun ⟨_, h⟩ => (evaluateOrder_approved h).passes, evaluateOrder_approves⟩

/-! ## Less demanding orders -/

/-- `j` asks for no more than `i`. A missing leverage is the largest. -/
structure LessDemanding (cfg : Config) (i j : RiskInput) : Prop where
  symbol_eq : j.symbol = i.symbol
  side_eq : j.side = i.side
  size_pos : 0 < j.orderSize
  size_le : j.orderSize ≤ i.orderSize
  price_pos : 0 < j.price
  price_le : j.price ≤ i.price
  balance : i.account.balance ≤ j.account.balance
  marginUsed : j.account.marginUsed ≤ i.account.marginUsed
  userExposure : j.currentUserExposure ≤ i.currentUserExposure
  globalExposure : j.currentGlobalExposure ≤ i.currentGlobalExposure
  leverage : ∀ m ∈ j.requestedLeverage, ∃ l ∈ i.requestedLeverage, 1 ≤ l ∧ l ≤ m
  tier : (Tier.ofString (riskTier cfg i.user)).rank ≤ (Tier.ofString (riskTier cfg j.user)).rank

theorem LessDemanding.notional_le (h : LessDemanding cfg i j) :
    j.orderSize * j.price ≤ i.orderSize * i.price :=
  mul_le_mul h.size_le h.price_le h.price_pos.le (h.size_pos.le.trans h.size_le)

theorem orderLeverage_le (requested : Option ℤ) (maxLeverage : ℤ) :
    orderLeverage requested maxLeverage ≤ maxLeverage :=
  min_le_right _ _

theorem orderLeverage_some {l : ℤ} (h : 1 ≤ l) (maxLeverage : ℤ) :
    orderLeverage (some l) maxLeverage = min l maxLeverage := by
  rw [orderLeverage, if_neg (by simp; omega)]
  rfl

theorem orderLeverage_none (maxLeverage : ℤ) : orderLeverage none maxLeverage = maxLeverage := by
  simp [orderLeverage]

/-- An order that asks for no less leverage under a ceiling that is not lower gets no less. -/
theorem orderLeverage_mono {r r' : Option ℤ} {m m' : ℤ} (hm : m ≤ m')
    (hr : ∀ l' ∈ r', ∃ l ∈ r, 1 ≤ l ∧ l ≤ l') : orderLeverage r m ≤ orderLeverage r' m' := by
  cases r' with
  | none =>
    rw [orderLeverage_none]
    exact (orderLeverage_le r m).trans hm
  | some l' =>
    obtain ⟨l, rfl, hl, hle⟩ := hr l' rfl
    rw [orderLeverage_some hl, orderLeverage_some (hl.trans hle)]
    exact min_le_min hle hm

theorem LessDemanding.leverage_le (h : LessDemanding cfg i j)
    (hlower : ∀ s, cfg.lower (cfg.lower s) = cfg.lower s) :
    i.leverage cfg vol ≤ j.leverage cfg vol := by
  have hfix : ∀ u : User, cfg.lower (riskTier cfg u) = riskTier cfg u := fun u => hlower _
  refine orderLeverage_mono ?_ h.leverage
  rw [h.symbol_eq]
  refine getMaxLeverage_mono cfg vol i.symbol h.notional_le ?_
  rw [hfix, hfix]
  exact h.tier

theorem userExposureLimit_mono (ht : 0 ≤ cfg.globalExposureThreshold) {tier tier' : String}
    (h : (Tier.ofString tier).rank ≤ (Tier.ofString tier').rank) :
    userExposureLimit cfg tier ≤ userExposureLimit cfg tier' := by
  rw [userExposureLimit, userExposureLimit, userExposureFraction_eq tier,
    userExposureFraction_eq tier']
  exact mul_le_mul_of_nonneg_left (tier_tables h).2.2 ht

/-- What passes, passes with less. -/
theorem Passes.of_lessDemanding (h : Passes cfg vol i) (hlower : ∀ s, cfg.lower (cfg.lower s) = cfg.lower s)
    (ht : 0 ≤ cfg.globalExposureThreshold) (hd : LessDemanding cfg i j) : Passes cfg vol j := by
  have hn := hd.notional_le
  have hl : i.leverage cfg vol ≤ j.leverage cfg vol := hd.leverage_le hlower
  have hl1 : (1 : ℚ) ≤ i.leverage cfg vol := by exact_mod_cast h.leverage_pos
  have hl2 : (i.leverage cfg vol : ℚ) ≤ j.leverage cfg vol := by exact_mod_cast hl
  have hpos : 0 ≤ j.orderSize * j.price := mul_nonneg hd.size_pos.le hd.price_pos.le
  have hmargin : j.orderSize * j.price / j.leverage cfg vol ≤
      i.orderSize * i.price / i.leverage cfg vol :=
    div_le_div₀ (hpos.trans hn) hn (by linarith) hl2
  refine ⟨hd.size_pos, h.leverage_pos.trans hl, ?_, ?_, ?_⟩
  · linarith [h.margin, hd.balance, hd.marginUsed]
  · linarith [h.globalExposure, hd.globalExposure]
  · linarith [h.userExposure, hd.userExposure, userExposureLimit_mono ht hd.tier]

/-- **Approval is monotone.** What is approved is approved, too, with a smaller size and price, more
free balance, less exposure, no smaller leverage asked for and no lower tier. Lowering a text
twice is lowering it once. -/
theorem approval_monotone (hlower : ∀ s, cfg.lower (cfg.lower s) = cfg.lower s)
    (ht : 0 < cfg.globalExposureThreshold) (hd : LessDemanding cfg i j)
    (h : ∃ a, evaluateOrder cfg vol i = .ok (.approved a)) :
    ∃ a, evaluateOrder cfg vol j = .ok (.approved a) :=
  approved_iff.mpr ((approved_iff.mp h).of_lessDemanding hlower ht.le hd)

end

/-! ## Half the size, in a higher tier -/

namespace Sample

theorem lower_lower (s : String) : config.lower (config.lower s) = config.lower s := by
  refine String.toList_injective ?_
  simp [config, String.toLower, String.toList_map]

/-- An order for 1 BTC at `price`, without other positions. -/
def btcInput (tier : String) (price : ℚ) : RiskInput where
  account := ⟨1, 1, 1000, 0⟩
  user := ⟨1, "trader_1", tier, "trader"⟩
  orderSize := 1
  price
  side := .buy
  requestedLeverage := none
  currentUserExposure := 0
  currentGlobalExposure := 0
  symbol := "BTCUSDT"

end Sample

open Sample in
/-- 1 BTC at 10000 is approved at 10 for a standard user, and so is 1 BTC at 9000 for a professional
one. -/
theorem approval_monotone_btc :
    ∃ a, evaluateOrder config (fun _ => none) (btcInput "Professional" 9000) = .ok (.approved a) := by
  have hd : LessDemanding config (btcInput "standard" 10000) (btcInput "Professional" 9000) := by
    refine ⟨rfl, rfl, ?_, ?_, ?_, ?_, ?_, ?_, ?_, ?_, ?_, ?_⟩ <;> decide +kernel
  have hi : Passes config (fun _ => none) (btcInput "standard" 10000) := by
    refine ⟨?_, ?_, ?_, ?_, ?_⟩ <;> decide +kernel
  exact approval_monotone lower_lower (by decide +kernel) hd (evaluateOrder_approves hi)

end CryptoExchange
