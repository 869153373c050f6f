import CryptoExchange.Alerts.Publisher
import CryptoExchange.Ledger.Exposure
import CryptoExchange.Lib.GroupBy
import CryptoExchange.Regulator.Record

/-!
# The exposure figures

Five queries sum the notional of the live positions: `user_exposure` and `global_exposure`
(`app/risk_engine/exposure.py`), `get_overview` and `get_exposure_breakdown`
(`app/services/regulator_service.py`), and `trading_kpi` (`app/kpi/aggregator.py`).

`exposures_agree`: they are sums over one set of rows, which the users and the symbols partition.
-/

namespace CryptoExchange

open Lib Db

/-- A row of the query of `get_exposure_breakdown`. -/
structure SymbolExposure where
  symbol : String
  totalNotional : ℚ
  positionCount : ℕ
  deriving DecidableEq

namespace Db

variable (db : Db)

/-- `GROUP BY symbol`. -/
def exposureGroups : List SymbolExposure :=
  (groupBy Position.symbol (db.positions.filter fun p => p.liquidated = false)).map fun g =>
    { symbol := g.1
      totalNotional := (g.2.map Position.notional).sum
      positionCount := g.2.length }

/-- `get_exposure_breakdown`: `ORDER BY SUM(notional) DESC`, with equal sums in any order. -/
def exposureBreakdown (tie : String → ℕ) : List SymbolExposure :=
  (db.exposureGroups.mergeSort fun x y => tie x.symbol ≤ tie y.symbol).mergeSort fun x y =>
    y.totalNotional ≤ x.totalNotional

end Db

/-- `trading_kpi`. -/
def tradingKpi (cfg : Config) (db : Db) : TradingKpi where
  totalOrders := db.orders.length
  totalTrades := db.trades.length
  globalExposure :=
    cfg.float ((db.positions.filter fun p => p.liquidated = false).map Position.notional).sum

namespace Db

variable (db : Db)

theorem livePositions_eq : db.livePositions = db.positions.filter fun p => p.liquidated = false :=
  List.filter_congr fun p _ => by cases p.liquidated <;> rfl

theorem userExposure_eq_fiber (userId : ℤ) :
    db.userExposure userId =
      ((db.livePositions.filter fun p => p.userId = userId).map Position.notional).sum := by
  rw [userExposure, livePositions_eq, List.filter_filter]
  simp

theorem exposureBreakdown_perm (tie : String → ℕ) :
    (db.exposureBreakdown tie).Perm db.exposureGroups :=
  (List.mergeSort_perm _ _).trans (List.mergeSort_perm _ _)

theorem exposureBreakdown_sorted (tie : String → ℕ) :
    (db.exposureBreakdown tie).Pairwise fun x y => y.totalNotional ≤ x.totalNotional := by
  let le : SymbolExposure → SymbolExposure → Bool := fun x y => y.totalNotional ≤ x.totalNotional
  have htrans : ∀ x y z, le x y → le y z → le x z := by
    intro x y z hxy hyz
    exact decide_eq_true (le_trans (of_decide_eq_true hyz) (of_decide_eq_true hxy))
  have htotal : ∀ x y, le x y || le y x := by
    intro x y
    simpa [le] using le_total y.totalNotional x.totalNotional
  exact (List.pairwise_mergeSort htrans htotal _).imp of_decide_eq_true

theorem exposureGroups_symbols :
    db.exposureGroups.map SymbolExposure.symbol =
      (groupBy Position.symbol (db.positions.filter fun p => p.liquidated = false)).map Prod.fst :=
  List.map_map

theorem exposureGroups_total :
    (db.exposureGroups.map SymbolExposure.totalNotional).sum = db.globalExposure := by
  rw [globalExposure, livePositions_eq, ← sum_groupBy Position.symbol, exposureGroups, List.map_map]
  rfl

theorem exposureGroups_count :
    (db.exposureGroups.map SymbolExposure.positionCount).sum =
      (db.positions.filter fun p => p.liquidated = false).length := by
  rw [← length_groupBy Position.symbol, exposureGroups, List.map_map]
  rfl

end Db

/-- **The exposure figures agree**, in every table of positions. -/
theorem exposures_agree (cfg : Config) (db : Db) (alerts : List KpiAlert) (createdAt : ℕ → ℕ)
    (now : ℕ) (tie : String → ℕ) (users : List ℤ) (hn : users.Nodup)
    (hu : ∀ p ∈ db.positions, p.userId ∈ users) :
    db.globalExposure = (users.map db.userExposure).sum ∧
    db.globalExposure = ((db.exposureBreakdown tie).map SymbolExposure.totalNotional).sum ∧
    (getOverview cfg db alerts createdAt now).totalNotionalExposure =
      cfg.decimal db.globalExposure ∧
    (tradingKpi cfg db).globalExposure = cfg.float db.globalExposure ∧
    ((db.exposureBreakdown tie).map SymbolExposure.positionCount).sum =
      (getOverview cfg db alerts createdAt now).activePositions ∧
    ((db.exposureBreakdown tie).map SymbolExposure.symbol).Nodup ∧
    (∀ s, s ∈ (db.exposureBreakdown tie).map SymbolExposure.symbol ↔
      ∃ p ∈ db.positions, p.liquidated = false ∧ p.symbol = s) ∧
    (db.exposureBreakdown tie).Pairwise fun x y => y.totalNotional ≤ x.totalNotional := by
  have hperm := db.exposureBreakdown_perm tie
  refine ⟨?_, ?_, rfl, ?_, ?_, ?_, fun s => ?_, db.exposureBreakdown_sorted tie⟩
  · have hlive : ∀ p ∈ db.livePositions, p.userId ∈ users :=
      fun p hp => hu p (List.mem_of_mem_filter hp)
    rw [globalExposure, ← sum_fibers Position.notional Position.userId hn hlive]
    exact congrArg List.sum (List.map_congr_left fun u _ => (db.userExposure_eq_fiber u).symm)
  · rw [(hperm.map _).sum_eq, db.exposureGroups_total]
  · rw [globalExposure, livePositions_eq]
    rfl
  · rw [(hperm.map _).sum_eq, db.exposureGroups_count]
    rfl
  · rw [(hperm.map _).nodup_iff, db.exposureGroups_symbols]
    exact groupBy_keys_nodup _ _
  · rw [(hperm.map _).mem_iff, db.exposureGroups_symbols, mem_groupBy_keys]
    simp [and_assoc]

/-! ## Two users, two symbols -/

namespace Sample

/-- A position of the user. -/
def exposedIn (id : ℕ) (userId : ℤ) (symbol : String) (notional : ℚ) (liquidated : Bool) :
    Position where
  id
  accountId := id
  userId
  symbol
  quantity := 1
  entryPrice := notional
  notional
  margin := 0
  liquidated

def exposedDb : Db where
  users := []
  accounts := []
  positions :=
    [exposedIn 1 1 "BTCUSDT" 100 false, exposedIn 2 2 "ETHUSDT" 300 false,
      exposedIn 3 2 "BTCUSDT" 50 false, exposedIn 4 1 "ETHUSDT" 70 true]
  orders := []
  trades := []

end Sample

open Sample in
/-- The result for two users with three live positions. -/
theorem exposures_agree_sample :
    exposedDb.globalExposure = ([1, 2].map exposedDb.userExposure).sum ∧
      ((exposedDb.exposureBreakdown fun _ => 0).map SymbolExposure.positionCount).sum =
        (getOverview config exposedDb [] id 0).activePositions := by
  have h := exposures_agree config exposedDb [] id 0 (fun _ => 0) [1, 2] (by decide)
    (by decide)
  exact ⟨h.1, h.2.2.2.2.1⟩

end CryptoExchange
