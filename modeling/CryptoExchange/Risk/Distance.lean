import CryptoExchange.Risk.Liquidation

/-!
# How far the liquidation price is

`liquidation_price` is the entry price times `1 ∓ (1 / L - mmr)`. `1 / L` falls with the leverage, and
so does the rate of `_MMR_TABLE`, which pulls the other way at the edges of the table.

* `mmrOf_succ`: the rate of the next leverage is the same, but behind the last one of a row.
* `distance_succ_lt`: at every edge but 50 the fall of `1 / L` outweighs the one of the rate.
* `distance_lt_iff`: the distance falls between any two leverages but 50 and 51.
* `nearer_iff`: so the liquidation price comes nearer.
-/

namespace CryptoExchange

/-! ## The distance -/

/-- The distance of the liquidation price from an entry price of 1. -/
def liquidationDistance (leverage : ℤ) : ℚ := 1 / leverage - maintenanceMarginRate leverage

theorem mmrOf_succ {leverage : ℤ} {rows : List (ℤ × ℚ)} (h : ∀ r ∈ rows, leverage ≠ r.1) :
    mmrOf (leverage + 1) rows = mmrOf leverage rows := by
  induction rows with
  | nil => rfl
  | cons r rows ih =>
    obtain ⟨maxLev, rate⟩ := r
    have hne : leverage ≠ maxLev := h _ List.mem_cons_self
    rw [mmrOf, mmrOf, ih fun r hr => h r (List.mem_cons_of_mem _ hr)]
    by_cases hle : leverage ≤ maxLev
    · rw [if_pos hle, if_pos (by omega)]
    · rw [if_neg hle, if_neg (by omega)]

theorem one_div_succ_lt {leverage : ℤ} (h : 1 ≤ leverage) :
    (1 : ℚ) / (leverage + 1 : ℤ) < 1 / leverage := by
  have hpos : (0 : ℚ) < leverage := by exact_mod_cast h
  have hlt : (leverage : ℚ) < (leverage + 1 : ℤ) := by exact_mod_cast lt_add_one leverage
  exact one_div_lt_one_div_of_lt hpos hlt

theorem distance_succ_lt {leverage : ℤ} (h : 1 ≤ leverage) (h50 : leverage ≠ 50) :
    liquidationDistance (leverage + 1) < liquidationDistance leverage := by
  by_cases hedge : ∃ r ∈ mmrTable, leverage = r.1
  · obtain ⟨r, hr, rfl⟩ := hedge
    -- the edges are 2, 5, 10, 20 and 9999
    revert h50
    revert r
    decide +kernel
  · have hsame : maintenanceMarginRate (leverage + 1) = maintenanceMarginRate leverage :=
      mmrOf_succ fun r hr he => hedge ⟨r, hr, he⟩
    rw [liquidationDistance, liquidationDistance, hsame]
    exact sub_lt_sub_right (one_div_succ_lt h) _

/-- Away from the edge at 50 the distance falls. -/
theorem distance_le {l l' : ℤ} (h1 : 1 ≤ l) (h : l ≤ l') (h50 : l' ≤ 50 ∨ 51 ≤ l) :
    liquidationDistance l' ≤ liquidationDistance l := by
  induction l', h using Int.leInduction with
  | base => exact le_rfl
  | succ l' hle ih =>
    have hstep := distance_succ_lt (by omega : 1 ≤ l') (by omega)
    exact hstep.le.trans (ih (by omega))

theorem distance_lt {l l' : ℤ} (h1 : 1 ≤ l) (h : l < l') (hne : ¬(l = 50 ∧ l' = 51)) :
    liquidationDistance l' < liquidationDistance l := by
  by_cases hside : l' ≤ 50 ∨ 51 ≤ l
  · calc liquidationDistance l' ≤ liquidationDistance (l + 1) :=
          distance_le (by omega) (by omega) (by omega)
      _ < liquidationDistance l := distance_succ_lt h1 (by omega)
  by_cases hl : l = 50
  · subst hl
    calc liquidationDistance l' ≤ liquidationDistance 52 := distance_le (by omega) (by omega) (by omega)
      _ < liquidationDistance 50 := by decide +kernel
  · calc liquidationDistance l' ≤ liquidationDistance 51 := distance_le (by omega) (by omega) (by omega)
      _ < liquidationDistance 49 := by decide +kernel
      _ ≤ liquidationDistance l := distance_le h1 (by omega) (by omega)

theorem distance_lt_iff {l l' : ℤ} (h1 : 1 ≤ l) (h : l < l') :
    liquidationDistance l' < liquidationDistance l ↔ ¬(l = 50 ∧ l' = 51) := by
  refine ⟨?_, distance_lt h1 h⟩
  rintro hlt ⟨rfl, rfl⟩
  revert hlt
  decide +kernel

/-! ## The liquidation price -/

theorem liquidationPrice_distance (entry : ℚ) {leverage : ℤ} (h : 1 ≤ leverage) (long : Bool) :
    liquidationPrice entry leverage long (maintenanceMarginRate leverage) =
      .ok (if long then entry * (1 - liquidationDistance leverage)
        else entry * (1 + liquidationDistance leverage)) := by
  rw [liquidationPrice, if_neg (by omega)]
  cases long
  · rw [if_neg Bool.false_ne_true, if_neg Bool.false_ne_true, liquidationDistance, add_sub_assoc]
  · rw [if_pos rfl, if_pos rfl, liquidationDistance]
    congr 1
    ring

/-- **More leverage is nearer to liquidation**, except from 50 to 51, where the rate falls from 0.15%
to 0.10% and the price goes away. -/
theorem nearer_iff {entry : ℚ} (he : 0 < entry) {l l' : ℤ} (h1 : 1 ≤ l) (h : l < l') :
    ∃ long long' short short' : ℚ,
      liquidationPrice entry l true (maintenanceMarginRate l) = .ok long ∧
      liquidationPrice entry l' true (maintenanceMarginRate l') = .ok long' ∧
      liquidationPrice entry l false (maintenanceMarginRate l) = .ok short ∧
      liquidationPrice entry l' false (maintenanceMarginRate l') = .ok short' ∧
      (long < long' ↔ ¬(l = 50 ∧ l' = 51)) ∧ (short' < short ↔ ¬(l = 50 ∧ l' = 51)) := by
  have h1' : 1 ≤ l' := by omega
  refine ⟨_, _, _, _, liquidationPrice_distance entry h1 true,
    liquidationPrice_distance entry h1' true, liquidationPrice_distance entry h1 false,
    liquidationPrice_distance entry h1' false, ?_, ?_⟩
  · rw [if_pos rfl, if_pos rfl, mul_lt_mul_iff_right₀ he, sub_lt_sub_iff_left,
      distance_lt_iff h1 h]
  · rw [if_neg Bool.false_ne_true, if_neg Bool.false_ne_true, mul_lt_mul_iff_right₀ he,
      add_lt_add_iff_left, distance_lt_iff h1 h]

/-- From 10 to 20. -/
theorem nearer_iff_ten :
    ∃ long long' short short' : ℚ,
      liquidationPrice 100 10 true (maintenanceMarginRate 10) = .ok long ∧
      liquidationPrice 100 20 true (maintenanceMarginRate 20) = .ok long' ∧
      liquidationPrice 100 10 false (maintenanceMarginRate 10) = .ok short ∧
      liquidationPrice 100 20 false (maintenanceMarginRate 20) = .ok short' ∧
      (long < long' ↔ ¬((10 : ℤ) = 50 ∧ (20 : ℤ) = 51)) ∧
      (short' < short ↔ ¬((10 : ℤ) = 50 ∧ (20 : ℤ) = 51)) :=
  nearer_iff (by norm_num) (by norm_num) (by norm_num)

/-- At 51 the liquidation prices of a long and of a short position are further from 100 than at 50. -/
theorem further_at_51 :
    ∃ long long' short short' : ℚ,
      liquidationPrice 100 50 true (maintenanceMarginRate 50) = .ok long ∧
      liquidationPrice 100 51 true (maintenanceMarginRate 51) = .ok long' ∧
      liquidationPrice 100 50 false (maintenanceMarginRate 50) = .ok short ∧
      liquidationPrice 100 51 false (maintenanceMarginRate 51) = .ok short' ∧
      long' < long ∧ short < short' := by
  refine ⟨_, _, _, _, liquidationPrice_distance 100 (by norm_num) true,
    liquidationPrice_distance 100 (by norm_num) true,
    liquidationPrice_distance 100 (by norm_num) false,
    liquidationPrice_distance 100 (by norm_num) false, ?_, ?_⟩ <;> decide +kernel

end CryptoExchange
