import CryptoExchange.Risk.Liquidation

/-!
# The leverage ceiling

`get_max_leverage` goes through two tables, two minima, a truncation and a floor of 1.

* `getMaxLeverage_eq`: with the tier's name for the key, the ceiling without a symbol is
  `baseLeverage`, and with one it is that times the modifier, at least 1.
* `getMaxLeverage_symbol_le`, `getMaxLeverage_range`, `getMaxLeverage_setting`: a symbol, a larger
  range and a smaller setting only ever lower it.
* `userExposureLimit_unlisted`: a tier outside the tables has the exposure limit of `standard`.
* `ceiling_bounded_monotone`: all of it.
-/

namespace CryptoExchange

open Lib

/-! ## The tier -/

namespace Tier

/-- The tier's row of `tierCaps`. -/
def cap (t : Tier) : ℤ := (tierCaps.lookup t.name).getD 10

/-- No table has a row for `s`. -/
def Unlisted (s : String) : Prop := ∀ t : Tier, s ≠ t.name

theorem ofString_unlisted {s : String} (h : Unlisted s) : ofString s = .standard := by
  have hi : s ≠ "institutional" := h .institutional
  have hp : s ≠ "professional" := h .professional
  rw [ofString, if_neg hi, if_neg hp]

end Tier

theorem userExposureLimit_unlisted (cfg : Config) {s : String} (h : Tier.Unlisted s) :
    userExposureLimit cfg s = userExposureLimit cfg "standard" := by
  rw [userExposureLimit, userExposureFraction_eq, Tier.ofString_unlisted h]
  rfl

/-! ## The ceiling -/

section

variable {cfg : Config} {vol : Volatility} {tier : String} {n : ℚ} {symbol : String}

/-- What the cap and the brackets leave for a tier. -/
def tierLeverage (cfg : Config) (t : Tier) (n : ℚ) : ℤ :=
  baseLeverage t.name (min t.cap (max 1 cfg.maxLeverage)) n leverageBrackets

theorem tierLeverage_pos (cfg : Config) (t : Tier) (n : ℚ) : 1 ≤ tierLeverage cfg t n :=
  baseLeverage_pos (tierCap_pos t.name cfg.maxLeverage) leverageBrackets (by decide)

theorem tierLeverage_le_cap (cfg : Config) (t : Tier) (n : ℚ) :
    tierLeverage cfg t n ≤ min t.cap (max 1 cfg.maxLeverage) :=
  baseLeverage_le_cap (tierCap_pos t.name cfg.maxLeverage) n leverageBrackets

theorem getMaxLeverage_eq (cfg : Config) (vol : Volatility) (tier : String) (n : ℚ)
    (symbol : String) :
    getMaxLeverage cfg vol tier n symbol =
      if symbol ≠ "" then
        max 1 (truncate (tierLeverage cfg (Tier.ofString (cfg.lower tier)) n *
          getModifier cfg vol symbol))
      else tierLeverage cfg (Tier.ofString (cfg.lower tier)) n := by
  unfold getMaxLeverage
  dsimp only
  rw [tierKey_eq]
  rfl

theorem getMaxLeverage_empty :
    getMaxLeverage cfg vol tier n "" = tierLeverage cfg (Tier.ofString (cfg.lower tier)) n := by
  rw [getMaxLeverage_eq, if_neg (not_not.mpr rfl)]

/-- A symbol only lowers the ceiling. -/
theorem getMaxLeverage_symbol_le :
    getMaxLeverage cfg vol tier n symbol ≤ getMaxLeverage cfg vol tier n "" := by
  have hpos := tierLeverage_pos cfg (Tier.ofString (cfg.lower tier)) n
  rw [getMaxLeverage_empty, getMaxLeverage_eq]
  split
  · exact max_le hpos (truncate_modifier_le cfg vol symbol hpos)
  · exact le_rfl

/-- What the tier and the setting leave decides, whatever the symbol. -/
theorem getMaxLeverage_le_of_tierLeverage {cfg' : Config} {tier' : String} {n' : ℚ}
    (hupper : cfg'.upper = cfg.upper)
    (h : tierLeverage cfg (Tier.ofString (cfg.lower tier)) n ≤
      tierLeverage cfg' (Tier.ofString (cfg'.lower tier')) n') :
    getMaxLeverage cfg vol tier n symbol ≤ getMaxLeverage cfg' vol tier' n' symbol := by
  have hmod : getModifier cfg' vol symbol = getModifier cfg vol symbol := by
    rw [getModifier, getModifier, hupper]
  rw [getMaxLeverage_eq, getMaxLeverage_eq, hmod]
  split
  · exact max_le_max_left _ (truncate_modifier_mono cfg vol symbol (tierLeverage_pos cfg _ _) h)
  · exact h

theorem getModifier_anti {vol' : Volatility}
    (h : (vol (cfg.upper symbol)).getD 0 ≤ (vol' (cfg.upper symbol)).getD 0) :
    getModifier cfg vol' symbol ≤ getModifier cfg vol symbol :=
  bandModifier_antitone h (by norm_num [volatilityBands]) (by norm_num [volatilityBands])

/-- A larger range of the last candle has no higher ceiling. -/
theorem getMaxLeverage_range {vol' : Volatility}
    (h : (vol (cfg.upper symbol)).getD 0 ≤ (vol' (cfg.upper symbol)).getD 0) :
    getMaxLeverage cfg vol' tier n symbol ≤ getMaxLeverage cfg vol tier n symbol := by
  have hpos := tierLeverage_pos cfg (Tier.ofString (cfg.lower tier)) n
  have h0 : (0 : ℚ) ≤ tierLeverage cfg (Tier.ofString (cfg.lower tier)) n := by
    exact_mod_cast (by omega : (0 : ℤ) ≤ tierLeverage cfg (Tier.ofString (cfg.lower tier)) n)
  rw [getMaxLeverage_eq, getMaxLeverage_eq]
  split
  · refine max_le_max_left _ (truncate_mono ?_ ?_)
    · exact mul_nonneg h0 (getModifier_nonneg cfg vol' symbol)
    · exact mul_le_mul_of_nonneg_left (getModifier_anti h) h0
  · exact le_rfl

/-- A larger setting has no lower ceiling. -/
theorem getMaxLeverage_setting {m : ℤ} (h : cfg.maxLeverage ≤ m) :
    getMaxLeverage cfg vol tier n symbol ≤
      getMaxLeverage { cfg with maxLeverage := m } vol tier n symbol := by
  have hcap : min (Tier.ofString (cfg.lower tier)).cap (max 1 cfg.maxLeverage) ≤
      min (Tier.ofString (cfg.lower tier)).cap (max 1 m) := min_le_min_left _ (max_le_max_left 1 h)
  have hbase : tierLeverage cfg (Tier.ofString (cfg.lower tier)) n ≤
      tierLeverage { cfg with maxLeverage := m } (Tier.ofString (cfg.lower tier)) n :=
    baseLeverage_mono hcap n fun _ _ => le_rfl
  exact getMaxLeverage_le_of_tierLeverage rfl hbase

/-- **The ceiling is bounded and monotone**, at every setting. A symbol without a candle counts as
range 0, and a tier outside the tables as `standard`, for the exposure limit too. -/
theorem ceiling_bounded_monotone (cfg : Config) (vol : Volatility) (tier : String) (n : ℚ)
    (symbol : String) :
    (1 ≤ getMaxLeverage cfg vol tier n symbol ∧
      getMaxLeverage cfg vol tier n symbol ≤ getMaxLeverage cfg vol tier n "" ∧
      getMaxLeverage cfg vol tier n "" ≤
        min (Tier.ofString (cfg.lower tier)).cap (max 1 cfg.maxLeverage)) ∧
    (∀ n', n ≤ n' →
      getMaxLeverage cfg vol tier n' symbol ≤ getMaxLeverage cfg vol tier n symbol) ∧
    (∀ vol' : Volatility, (vol (cfg.upper symbol)).getD 0 ≤ (vol' (cfg.upper symbol)).getD 0 →
      getMaxLeverage cfg vol' tier n symbol ≤ getMaxLeverage cfg vol tier n symbol) ∧
    (∀ tier',
      (Tier.ofString (cfg.lower tier)).rank ≤ (Tier.ofString (cfg.lower tier')).rank →
      getMaxLeverage cfg vol tier n symbol ≤ getMaxLeverage cfg vol tier' n symbol) ∧
    (∀ m, cfg.maxLeverage ≤ m →
      getMaxLeverage cfg vol tier n symbol ≤
        getMaxLeverage { cfg with maxLeverage := m } vol tier n symbol) ∧
    (∀ tier', Tier.Unlisted (cfg.lower tier) → cfg.lower tier' = "standard" →
      getMaxLeverage cfg vol tier n symbol = getMaxLeverage cfg vol tier' n symbol) ∧
    ∀ u : User, Tier.Unlisted (riskTier cfg u) →
      userExposureLimit cfg (riskTier cfg u) = userExposureLimit cfg "standard" := by
  refine ⟨⟨getMaxLeverage_pos cfg vol tier n symbol, getMaxLeverage_symbol_le, ?_⟩,
    fun n' hn => getMaxLeverage_anti cfg vol tier hn symbol, fun _ h => getMaxLeverage_range h,
    fun _ h => getMaxLeverage_tier cfg vol n symbol h, fun _ h => getMaxLeverage_setting h,
    fun tier' hu hs => ?_, fun _ h => userExposureLimit_unlisted cfg h⟩
  · rw [getMaxLeverage_empty]
    exact tierLeverage_le_cap cfg _ n
  · rw [getMaxLeverage_eq, getMaxLeverage_eq, Tier.ofString_unlisted hu, hs]
    rfl

end

open Sample in
/-- A tier that is called `trader` counts as `standard`; a candle with a range of 7% halves the ceiling,
and a higher setting or tier does not lower it. -/
theorem ceiling_bounded_monotone_btc :
    (1 ≤ getMaxLeverage config (fun _ => none) "trader" 20000 "BTCUSDT" ∧
      getMaxLeverage config (fun _ => none) "trader" 20000 "" ≤ 10) ∧
    getMaxLeverage config (fun _ => none) "trader" 600000 "BTCUSDT" ≤
      getMaxLeverage config (fun _ => none) "trader" 20000 "BTCUSDT" ∧
    getMaxLeverage config (fun _ => some 7) "trader" 20000 "BTCUSDT" ≤
      getMaxLeverage config (fun _ => none) "trader" 20000 "BTCUSDT" ∧
    getMaxLeverage config (fun _ => none) "trader" 20000 "BTCUSDT" ≤
      getMaxLeverage config (fun _ => none) "Professional" 20000 "BTCUSDT" ∧
    getMaxLeverage config (fun _ => none) "trader" 20000 "BTCUSDT" ≤
      getMaxLeverage { config with maxLeverage := 50 } (fun _ => none) "trader" 20000 "BTCUSDT" ∧
    getMaxLeverage config (fun _ => none) "trader" 20000 "BTCUSDT" =
      getMaxLeverage config (fun _ => none) "STANDARD" 20000 "BTCUSDT" ∧
    userExposureLimit config (riskTier config ⟨1, "trader_1", "trader", "trader"⟩) =
      userExposureLimit config "standard" := by
  have hu : Tier.Unlisted (config.lower "trader") := by
    intro t
    cases t <;> decide +kernel
  obtain ⟨hbounds, hnotional, hrange, htier, hsetting, hunlisted, hlimit⟩ :=
    ceiling_bounded_monotone config (fun _ => none) "trader" 20000 "BTCUSDT"
  refine ⟨⟨hbounds.1, hbounds.2.2.trans ?_⟩, hnotional _ (by norm_num), hrange _ (by simp),
    htier _ ?_, hsetting 50 (by decide), hunlisted _ hu ?_, hlimit _ hu⟩ <;> decide +kernel

end CryptoExchange
