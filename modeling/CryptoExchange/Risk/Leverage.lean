import Mathlib.Data.Rat.Floor
import Mathlib.Order.WithBot
import CryptoExchange.Lib.Numeral

/-!
# Leverage, volatility and margin

`app/risk_engine/{volatility,leverage,margin}.py`, with exact arithmetic. A Python `Infinity` is `⊤`
of `WithTop ℚ`. `Config` is what the process is set up with, and Python's own functions that the
services call on strings and numbers.
-/

namespace CryptoExchange

open Lib

/-- Settings (`core/config.py`), and builtins that have no exact counterpart here. -/
structure Config where
  globalExposureThreshold : ℚ
  maxLeverage : ℤ
  /-- `binance_service.has_credentials`. -/
  hasCredentials : Bool
  /-- `str.upper`. -/
  upper : String → String
  /-- `str.lower`. -/
  lower : String → String
  /-- `float(Decimal)`. -/
  float : ℚ → PyFloat
  /-- `f"{x:,.2f}"`. -/
  amount : PyFloat → String
  /-- `str` of a column's value. -/
  decimal : ℚ → String

/-! ## `volatility.py` -/

def volatilityBands : List (WithTop ℚ × ℚ) := [(↑(3 : ℚ), 1), (↑(6 : ℚ), 3 / 4), (⊤, 1 / 2)]

/-- `_range_pct`: the range of the last closed 1h candle, by upper-case symbol. -/
abbrev Volatility := String → Option ℚ

/-- The value of the first band that `pct` fits. -/
def bandModifier (pct : ℚ) : List (WithTop ℚ × ℚ) → ℚ
  | [] => 1 / 2
  | (threshold, multiplier) :: bands =>
    if (pct : WithTop ℚ) ≤ threshold then multiplier else bandModifier pct bands

def getModifier (cfg : Config) (vol : Volatility) (symbol : String) : ℚ :=
  bandModifier ((vol (cfg.upper symbol)).getD 0) volatilityBands

/-! ## `leverage.py` -/

def leverageBrackets : List (WithTop ℚ × List (String × ℤ)) :=
  [(↑(10000 : ℚ), [("standard", 10), ("professional", 20), ("institutional", 50)]),
   (↑(100000 : ℚ), [("standard", 5), ("professional", 10), ("institutional", 20)]),
   (↑(500000 : ℚ), [("standard", 2), ("professional", 5), ("institutional", 10)]),
   (⊤, [("standard", 1), ("professional", 2), ("institutional", 5)])]

def tierCaps : List (String × ℤ) := [("standard", 10), ("professional", 20), ("institutional", 50)]

/-- `base_leverage` after the loop over the brackets. -/
def baseLeverage (tierKey : String) (tierCap : ℤ) (notional : ℚ) :
    List (WithTop ℚ × List (String × ℤ)) → ℤ
  | [] => 1
  | (ceiling, tierMap) :: brackets =>
    if (notional : WithTop ℚ) ≤ ceiling then min ((tierMap.lookup tierKey).getD 1) tierCap
    else baseLeverage tierKey tierCap notional brackets

/-- `int(Decimal)`: towards zero. -/
def truncate (x : ℚ) : ℤ := if 0 ≤ x then ⌊x⌋ else ⌈x⌉

def getMaxLeverage (cfg : Config) (vol : Volatility) (tier : String) (notional : ℚ)
    (symbol : String) : ℤ :=
  let tierKey := if (tierCaps.lookup (cfg.lower tier)).isSome then cfg.lower tier else "standard"
  let tierCap := min ((tierCaps.lookup tierKey).getD 10) (max 1 cfg.maxLeverage)
  let base := baseLeverage tierKey tierCap notional leverageBrackets
  if symbol ≠ "" then max 1 (truncate (base * getModifier cfg vol symbol)) else base

/-! ## `margin.py` -/

def mmrTable : List (ℤ × ℚ) :=
  [(2, 0.0100), (5, 0.0075), (10, 0.0050), (20, 0.0025), (50, 0.0015), (9999, 0.0010)]

def requiredMargin (orderSize price : ℚ) (leverage : ℤ) : Except String ℚ :=
  if leverage ≤ 0 then .error "Leverage must be greater than zero"
  else .ok (orderSize * price / leverage)

/-- The rate of the first row that `leverage` fits. -/
def mmrOf (leverage : ℤ) : List (ℤ × ℚ) → ℚ
  | [] => 0.0010
  | (maxLev, rate) :: rows => if leverage ≤ maxLev then rate else mmrOf leverage rows

def maintenanceMarginRate (leverage : ℤ) : ℚ := mmrOf leverage mmrTable

/-- `long`: the side is `BUY` or `LONG`. -/
def liquidationPrice (entryPrice : ℚ) (leverage : ℤ) (long : Bool) (mmr : ℚ) : Except String ℚ :=
  if leverage ≤ 0 then .error "Leverage must be greater than zero"
  else if long then .ok (entryPrice * (1 - 1 / leverage + mmr))
  else .ok (entryPrice * (1 + 1 / leverage - mmr))

def marginRatio (maintenanceMargin walletBalance : ℚ) (unrealizedPnl : ℚ) : WithTop ℚ :=
  let denom := walletBalance + unrealizedPnl
  if denom ≤ 0 then ⊤ else ↑(maintenanceMargin / denom)

/-! ## Leverage is positive -/

theorem lookup_mem {α β : Type} [BEq α] {a : α} {l : List (α × β)} {b : β}
    (h : l.lookup a = some b) : ∃ a', (a', b) ∈ l := by
  induction l with
  | nil => simp at h
  | cons e l ih =>
    obtain ⟨a', b'⟩ := e
    rw [List.lookup_cons] at h
    split at h
    · cases h; exact ⟨a', List.mem_cons_self⟩
    · obtain ⟨a'', hm⟩ := ih h
      exact ⟨a'', List.mem_cons_of_mem _ hm⟩

theorem lookup_getD_pos {l : List (String × ℤ)} (hl : ∀ e ∈ l, 1 ≤ e.2) (key : String) {d : ℤ}
    (hd : 1 ≤ d) : 1 ≤ (l.lookup key).getD d := by
  cases h : l.lookup key with
  | none => exact hd
  | some x =>
    obtain ⟨a, ha⟩ := lookup_mem h
    exact hl _ ha

theorem baseLeverage_pos {tierKey : String} {tierCap : ℤ} {notional : ℚ} (hc : 1 ≤ tierCap)
    (bs : List (WithTop ℚ × List (String × ℤ)))
    (hb : ∀ b ∈ bs, ∀ e ∈ b.2, 1 ≤ e.2) : 1 ≤ baseLeverage tierKey tierCap notional bs := by
  induction bs with
  | nil => exact le_refl _
  | cons b bs ih =>
    obtain ⟨ceiling, tierMap⟩ := b
    rw [baseLeverage]
    split
    · exact le_min (lookup_getD_pos (hb _ List.mem_cons_self) _ le_rfl) hc
    · exact ih fun b' hb' => hb b' (List.mem_cons_of_mem _ hb')

theorem tierCap_pos (key : String) (maxLeverage : ℤ) :
    1 ≤ min ((tierCaps.lookup key).getD 10) (max 1 maxLeverage) :=
  le_min (lookup_getD_pos (by decide) _ (by decide)) (le_max_left _ _)

theorem getMaxLeverage_pos (cfg : Config) (vol : Volatility) (tier : String) (notional : ℚ)
    (symbol : String) : 1 ≤ getMaxLeverage cfg vol tier notional symbol := by
  unfold getMaxLeverage
  dsimp only
  split
  · exact le_max_left _ _
  · exact baseLeverage_pos (tierCap_pos _ _) _ (by decide)

/-! ## Leverage steps down -/

theorem baseLeverage_le {tierKey : String} {tierCap v : ℤ} {notional : ℚ} (h1 : 1 ≤ min v tierCap)
    {bs : List (WithTop ℚ × List (String × ℤ))}
    (hb : ∀ b ∈ bs, (b.2.lookup tierKey).getD 1 ≤ v) :
    baseLeverage tierKey tierCap notional bs ≤ min v tierCap := by
  induction bs with
  | nil => exact h1
  | cons b bs ih =>
    obtain ⟨ceiling, tierMap⟩ := b
    rw [baseLeverage]
    split
    · exact min_le_min_right _ (hb _ List.mem_cons_self)
    · exact ih fun b' hb' => hb b' (List.mem_cons_of_mem _ hb')

/-- Brackets with smaller and smaller values give less for more. -/
theorem baseLeverage_anti {tierKey : String} {tierCap : ℤ} (hc : 1 ≤ tierCap) {n n' : ℚ}
    (hn : n ≤ n') {bs : List (WithTop ℚ × List (String × ℤ))}
    (hpos : ∀ b ∈ bs, 1 ≤ (b.2.lookup tierKey).getD 1)
    (hdown : bs.Pairwise fun b b' => (b'.2.lookup tierKey).getD 1 ≤ (b.2.lookup tierKey).getD 1) :
    baseLeverage tierKey tierCap n' bs ≤ baseLeverage tierKey tierCap n bs := by
  induction bs with
  | nil => exact le_rfl
  | cons b bs ih =>
    obtain ⟨ceiling, tierMap⟩ := b
    obtain ⟨hfirst, hrest⟩ := List.pairwise_cons.mp hdown
    rw [baseLeverage, baseLeverage]
    by_cases h' : (n' : WithTop ℚ) ≤ ceiling
    · rw [if_pos h', if_pos ((WithTop.coe_le_coe.mpr hn).trans h')]
    rw [if_neg h']
    split
    · exact baseLeverage_le (le_min (hpos _ List.mem_cons_self) hc) hfirst
    · exact ih (fun b' hb' => hpos b' (List.mem_cons_of_mem _ hb')) hrest

theorem leverageBrackets_pos (tierKey : String) :
    ∀ b ∈ leverageBrackets, 1 ≤ (b.2.lookup tierKey).getD 1 :=
  fun b hb =>
    lookup_getD_pos ((by decide : ∀ b ∈ leverageBrackets, ∀ e ∈ b.2, 1 ≤ e.2) b hb) _ le_rfl

theorem leverageBrackets_down (tierKey : String) :
    leverageBrackets.Pairwise fun b b' =>
      (b'.2.lookup tierKey).getD 1 ≤ (b.2.lookup tierKey).getD 1 := by
  unfold leverageBrackets
  cases h₁ : tierKey == "standard" <;> cases h₂ : tierKey == "professional" <;>
    cases h₃ : tierKey == "institutional" <;> simp [List.lookup_cons, h₁, h₂, h₃]

theorem bandModifier_nonneg (pct : ℚ) {bs : List (WithTop ℚ × ℚ)} (hb : ∀ b ∈ bs, 0 ≤ b.2) :
    0 ≤ bandModifier pct bs := by
  induction bs with
  | nil => norm_num [bandModifier]
  | cons b bs ih =>
    obtain ⟨threshold, multiplier⟩ := b
    rw [bandModifier]
    split
    · exact hb _ List.mem_cons_self
    · exact ih fun b' hb' => hb b' (List.mem_cons_of_mem _ hb')

theorem bandModifier_le {pct x : ℚ} {bs : List (WithTop ℚ × ℚ)} (hb : ∀ b ∈ bs, b.2 ≤ x)
    (hx : 1 / 2 ≤ x) : bandModifier pct bs ≤ x := by
  induction bs with
  | nil => exact hx
  | cons b bs ih =>
    rw [bandModifier]
    split
    · exact hb b List.mem_cons_self
    · exact ih fun b' hb' => hb b' (List.mem_cons_of_mem _ hb')

/-- A larger range is in the same band or in a later one. -/
theorem bandModifier_antitone {pct pct' : ℚ} (h : pct ≤ pct') {bs : List (WithTop ℚ × ℚ)}
    (hb : bs.Pairwise fun b b' => b'.2 ≤ b.2) (hlow : ∀ b ∈ bs, 1 / 2 ≤ b.2) :
    bandModifier pct' bs ≤ bandModifier pct bs := by
  induction bs with
  | nil => exact le_refl _
  | cons b bs ih =>
    obtain ⟨hfirst, hb⟩ := List.pairwise_cons.mp hb
    have hb2 := hlow b List.mem_cons_self
    have hrest := ih hb fun b' hb' => hlow b' (List.mem_cons_of_mem _ hb')
    by_cases hpct : (pct : WithTop ℚ) ≤ b.1
    · have hmax : ∀ b' ∈ b :: bs, b'.2 ≤ b.2 := by
        intro b' hb'
        rcases List.mem_cons.mp hb' with rfl | hb'
        · exact le_refl _
        · exact hfirst b' hb'
      calc bandModifier pct' (b :: bs) ≤ b.2 := bandModifier_le hmax hb2
        _ = bandModifier pct (b :: bs) := by rw [bandModifier, if_pos hpct]
    · have hpct' : ¬(pct' : WithTop ℚ) ≤ b.1 := fun h' =>
        hpct (le_trans (WithTop.coe_le_coe.mpr h) h')
      rw [bandModifier, if_neg hpct', bandModifier, if_neg hpct]
      exact hrest

theorem truncate_mono {x y : ℚ} (hx : 0 ≤ x) (h : x ≤ y) : truncate x ≤ truncate y := by
  rw [truncate, truncate, if_pos hx, if_pos (hx.trans h)]
  exact Int.floor_le_floor h

/-- The volatility modifier keeps the order of the ceilings. -/
theorem truncate_modifier_mono (cfg : Config) (vol : Volatility) (symbol : String) {l l' : ℤ}
    (hl : 1 ≤ l) (h : l ≤ l') :
    truncate (l * getModifier cfg vol symbol) ≤ truncate (l' * getModifier cfg vol symbol) := by
  have hmod : 0 ≤ getModifier cfg vol symbol :=
    bandModifier_nonneg _ (by simp [volatilityBands]; norm_num)
  have h0 : (0 : ℚ) ≤ l := by exact_mod_cast (by omega : (0 : ℤ) ≤ l)
  exact truncate_mono (mul_nonneg h0 hmod)
    (mul_le_mul_of_nonneg_right (by exact_mod_cast h) hmod)

/-- A larger notional has no higher ceiling. -/
theorem getMaxLeverage_anti (cfg : Config) (vol : Volatility) (tier : String) {n n' : ℚ}
    (hn : n ≤ n') (symbol : String) :
    getMaxLeverage cfg vol tier n' symbol ≤ getMaxLeverage cfg vol tier n symbol := by
  unfold getMaxLeverage
  dsimp only
  generalize (if (tierCaps.lookup (cfg.lower tier)).isSome then cfg.lower tier else "standard") = key
  have hcap := tierCap_pos key cfg.maxLeverage
  have hbase := baseLeverage_anti hcap hn (leverageBrackets_pos key) (leverageBrackets_down key)
  split
  · exact max_le_max_left _ (truncate_modifier_mono cfg vol symbol
      (baseLeverage_pos hcap leverageBrackets (by decide)) hbase)
  · exact hbase

/-! ## Sample settings -/

namespace Sample

def zero : PyFloat := .zero

/-- `d * 10 ^ e`, for a `d` of at most 17 digits without trailing zeros; 1 for another `d`. -/
def dec (d : ℕ) (e : ℤ) : PyFloat :=
  if h : d % 10 ≠ 0 ∧ d < 10 ^ 17 then ⟨false, d, e, .inl h.1, h.2⟩
  else ⟨false, 1, 0, .inl (by decide), by decide⟩

theorem dec_pos (d : ℕ) (e : ℤ) : 0 < (dec d e).value := by
  unfold dec
  split
  · rename_i h
    have hd : (0 : ℚ) < d := Nat.cast_pos.mpr (Nat.pos_of_ne_zero fun h0 => h.1 (by rw [h0]))
    simp only [PyFloat.value, Bool.false_eq_true, if_false, one_mul]
    exact mul_pos hd (zpow_pos (by norm_num) e)
  · norm_num [PyFloat.value]

/-- The default settings. The builtins are right on decimals of up to 17 digits in plain ASCII. -/
def config : Config where
  globalExposureThreshold := 10000000
  maxLeverage := 20
  hasCredentials := true
  upper s := s.toUpper
  lower s := s.toLower
  float x := (PyFloat.ofDecimal (x < 0) (x.num.natAbs * 10 ^ 20 / x.den) (-20)).getD zero
  amount _ := ""
  decimal _ := ""

end Sample

end CryptoExchange
