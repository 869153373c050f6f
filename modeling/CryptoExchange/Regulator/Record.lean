import CryptoExchange.Alerts.Thresholds
import CryptoExchange.Ledger.Service
import Mathlib.Data.List.Sort

/-!
# The record of liquidations

`get_overview` and `get_liquidation_history` (`app/services/regulator_service.py`) read the flag
`liquidated` of the positions. `_apply_liquidation` sets it, and so does `close_position`.

* `Ended`: a history of the runs of the ledger, the positions that each of the two has ended.
* `Effect.moved`: what a request does to the positions: it updates rows, sets flags and inserts live
  positions; only these two requests set flags.
* `RecordRight`: the record is the history of the liquidations. It is right exactly as long as no
  position has been closed.
-/

namespace CryptoExchange

open Lib Db

/-! ## The queries -/

/-- The dict of `get_overview`. -/
structure Overview where
  totalUsers : ℕ
  activePositions : ℕ
  totalNotionalExposure : String
  totalLiquidations : ℕ
  openComplianceAlerts : ℕ
  ordersLast24h : ℕ
  snapshotAt : ℕ

/-- 24 hours, in microseconds. -/
def overviewWindow : ℕ := 24 * 60 * 60 * 10 ^ 6

/-- `createdAt` is the column `created_at` of the orders. -/
def getOverview (cfg : Config) (db : Db) (alerts : List KpiAlert) (createdAt : ℕ → ℕ) (now : ℕ) :
    Overview where
  totalUsers := db.users.length
  activePositions := (db.positions.filter fun p => p.liquidated = false).length
  totalNotionalExposure := cfg.decimal db.globalExposure
  totalLiquidations := (db.positions.filter fun p => p.liquidated).length
  openComplianceAlerts := (alerts.filter KpiAlert.active).length
  ordersLast24h := (db.orders.filter fun o => now ≤ createdAt o.id + overviewWindow).length
  snapshotAt := now

/-- `ORDER BY` a time, descending. -/
def latestFirst {α : Type} (time : α → ℕ) (rows : List α) : List α :=
  rows.mergeSort fun x y => time y ≤ time x

/-- `updatedAt` is the column `updated_at` of the positions; an empty symbol is no filter. -/
def getLiquidationHistory (db : Db) (updatedAt : ℕ → ℕ) (symbol : Option String)
    (userId : Option ℤ) (limit : ℕ) : List Position :=
  (latestFirst (fun p : Position => updatedAt p.id) (db.positions.filter fun p => p.liquidated ∧
    (∀ s ∈ symbol, s ≠ "" → p.symbol = s) ∧ ∀ u ∈ userId, p.userId = u)).take limit

/-! ## The history -/

/-- The ids of the positions that have ended, by what ended them. -/
structure Ended where
  liquidated : List ℕ := []
  closed : List ℕ := []

/-- The positions that were live and have the flag now. -/
def endedIn (db db' : Db) : List ℕ :=
  (db.positions.filter fun p => p.liquidated = false ∧
    ∃ p' ∈ db'.positions, p'.id = p.id ∧ p'.liquidated).map Position.id

def Ended.record (w : World) (a : Request × List Answer) (w' : World) (g : Ended) : Ended :=
  match a.1 with
  | .applyLiquidation _ => { g with liquidated := g.liquidated ++ endedIn w.db w'.db }
  | .closePosition _ _ => { g with closed := g.closed ++ endedIn w.db w'.db }
  | _ => g

/-- The ledger, with the history of the positions that ended. -/
def endings (cfg : Config) (c : Column) : Sys := (ledger cfg c).withHistory ({} : Ended) Ended.record

/-! ## What a request does to the positions -/

variable {cfg : Config} {c : Column} {A : Answer → Prop} {db db' : Db}

/-- The rows are updated by `f`, which takes no flag back, and live positions are inserted. -/
structure Moved (db db' : Db) (f : Position → Position) (new : List Position) : Prop where
  positions_eq : db'.positions = db.positions.map f ++ new
  id_eq : ∀ p, (f p).id = p.id
  kept : ∀ p ∈ db.positions, p.liquidated = true → (f p).liquidated = true
  live : ∀ p ∈ new, p.liquidated = false

/-- The request ends positions. -/
def Request.Ends : Request → Prop
  | .applyLiquidation _ | .closePosition _ _ => True
  | _ => False

instance (r : Request) : Decidable r.Ends := by
  unfold Request.Ends
  split <;> infer_instance

theorem Moved.same (h : db'.positions = db.positions) : Moved db db' id [] where
  positions_eq := by rw [h, List.map_id, List.append_nil]
  id_eq _ := rfl
  kept _ _ h := h
  live _ h := nomatch h

/-- One row is replaced. -/
theorem Moved.replaced {p : Position}
    (h : db'.positions = db.positions.map fun q => if q.id = p.id then p else q)
    (hp : ∀ q ∈ db.positions, q.id = p.id → q.liquidated = true → p.liquidated = true) :
    Moved db db' (fun q => if q.id = p.id then p else q) [] where
  positions_eq := by rw [h, List.append_nil]
  id_eq q := by
    split
    · rename_i hid
      exact hid.symm
    · rfl
  kept q hq hl := by
    split
    · rename_i hid
      exact hp q hq hid hl
    · exact hl
  live _ h := nomatch h

theorem Effect.moved {r : Request} (hv : db.Valid c) (h : Effect cfg c A db r db') :
    ∃ f new, Moved db db' f new ∧
      (¬r.Ends → ∀ p ∈ db.positions, (f p).liquidated = p.liquidated) := by
  cases h with
  | same => exact ⟨id, [], .same rfl, fun _ _ _ => rfl⟩
  | @createOrder payload s position i t _ hc =>
    have e := hc.eq hv
    cases position with
    | none =>
      refine ⟨id, [storePosition c (s.position i)], ⟨?_, fun _ => rfl, fun _ _ h => h, ?_⟩,
        fun _ _ _ => rfl⟩
      · rw [e, List.map_id]
        rfl
      · intro p hp
        rw [List.mem_singleton.mp hp]
        rfl
    | some p =>
      obtain ⟨hp, -, -, -⟩ := hc.mem
      have hrow : ∀ q ∈ db.positions, q.id = p.id →
          q.liquidated = (storePosition c (s.added p)).liquidated := fun q hq hid => by
        rw [hv.positions.keyed.eq_of_key hq hp hid]
        rfl
      have hpos : db'.positions = db.positions.map fun q =>
          if q.id = p.id then storePosition c (s.added p) else q := by
        rw [e]
        rfl
      refine ⟨_, [], .replaced (p := storePosition c (s.added p)) hpos
        fun q hq hid hlq => (hrow q hq hid).symm.trans hlq, fun _ q hq => ?_⟩
      split
      · rename_i hid
        exact (hrow q hq hid).symm
      · rfl
  | @closePosition userId symbol s closePrice account o t _ hc _ =>
    have e := hc.eq hv
    have hpos : db'.positions = db.positions.map fun q => if q.id = s.position.id then
        storePosition c { s.position with liquidated := true } else q := by
      rw [e]
      rfl
    exact ⟨_, [], .replaced (p := storePosition c { s.position with liquidated := true }) hpos
      fun _ _ _ _ => rfl, fun hn => absurd trivial hn⟩
  | cancelOrder hc =>
    obtain ⟨-, -, -, e⟩ := hc.eq hv
    have hp : db'.positions = db.positions := by rw [e]; rfl
    exact ⟨id, [], .same hp, fun _ _ _ => rfl⟩
  | syncBalance hc =>
    have hp : db'.positions = db.positions := by rw [hc.eq hv]
    exact ⟨id, [], .same hp, fun _ _ _ => rfl⟩
  | setMarginType hc =>
    obtain ⟨f, e⟩ := SetMarginType.flush_eq
      (hv.positions.keyed.sublist (List.filter_sublist.map _)) hc
    refine ⟨fun p => { p with marginType := f p }, [],
      ⟨?_, fun _ => rfl, fun _ _ h => h, fun _ h => nomatch h⟩, fun _ _ _ => rfl⟩
    rw [e, List.append_nil]
  | @applyLiquidation symbol s _ hc =>
    have e := hc.eq hv
    refine ⟨fun p => if p.symbol = symbol ∧ p.liquidated = false then
      { p with liquidated := true } else p, [],
      ⟨?_, fun q => ?_, fun q _ hlq => ?_, fun _ h => nomatch h⟩, fun hn => absurd trivial hn⟩
    · rw [e, List.append_nil]
      rfl
    · split <;> rfl
    · split
      · rfl
      · exact hlq

section

variable {f : Position → Position} {new : List Position}

theorem Moved.endedIn_eq (h : Moved db db' f new) (hk : Keyed Position.id db'.positions) :
    endedIn db db' =
      (db.positions.filter fun p => p.liquidated = false ∧ (f p).liquidated).map Position.id := by
  unfold endedIn
  congr 1
  refine List.filter_congr fun p hp => ?_
  have hm : f p ∈ db'.positions := by
    rw [h.positions_eq]
    exact List.mem_append_left _ (List.mem_map_of_mem hp)
  have hrow : (∃ p' ∈ db'.positions, p'.id = p.id ∧ p'.liquidated = true) ↔
      (f p).liquidated = true := by
    constructor
    · rintro ⟨p', hp', hid, hl⟩
      rwa [hk.eq_of_key hp' hm (hid.trans (h.id_eq p).symm)] at hl
    · exact fun hl => ⟨f p, hm, h.id_eq p, hl⟩
  simp only [hrow]

/-- The rows with the flag: those that had it, and those that ended. -/
theorem Moved.flagged (h : Moved db db' f new) (hk : Keyed Position.id db'.positions) :
    ((db'.positions.filter fun p => p.liquidated).map Position.id).Perm
      ((db.positions.filter fun p => p.liquidated).map Position.id ++ endedIn db db') := by
  have hnew : new.filter (fun p => p.liquidated) = [] := by
    rw [List.filter_eq_nil_iff]
    intro p hp
    simp [h.live p hp]
  have hids : ((db'.positions.filter fun p => p.liquidated).map Position.id) =
      (db.positions.filter fun p => (f p).liquidated).map Position.id := by
    rw [h.positions_eq, List.filter_append, hnew, List.append_nil, List.filter_map, List.map_map]
    exact List.map_congr_left fun p _ => h.id_eq p
  have hold : (db.positions.filter fun p => (f p).liquidated).filter (fun p => p.liquidated) =
      db.positions.filter fun p => p.liquidated := by
    rw [List.filter_filter]
    refine List.filter_congr fun p hp => ?_
    cases hl : p.liquidated with
    | false => rfl
    | true => simp [h.kept p hp hl]
  have hended : (db.positions.filter fun p => (f p).liquidated).filter (fun p => !p.liquidated) =
      db.positions.filter fun p => p.liquidated = false ∧ (f p).liquidated := by
    rw [List.filter_filter]
    refine List.filter_congr fun p _ => ?_
    cases p.liquidated <;> simp
  rw [hids, h.endedIn_eq hk, ← hended, ← List.map_append]
  refine List.Perm.map _ ?_
  rw [← hold]
  exact (List.filter_append_perm _ _).symm

/-- Nothing ends when no flag changes. -/
theorem Moved.endedIn_nil (h : Moved db db' f new) (hk : Keyed Position.id db'.positions)
    (hf : ∀ p ∈ db.positions, (f p).liquidated = p.liquidated) : endedIn db db' = [] := by
  rw [h.endedIn_eq hk, List.map_eq_nil_iff, List.filter_eq_nil_iff]
  intro p hp
  rw [hf p hp]
  simp

end

/-! ## Runs -/

/-- The rows with the flag are the ones in the history. -/
structure Flagged (c : Column) (s : World × Ended) : Prop where
  valid : s.1.db.Valid c
  flagged : ((s.1.db.positions.filter fun p => p.liquidated).map Position.id).Perm
    (s.2.liquidated ++ s.2.closed)

theorem endings_flagged (cfg : Config) (c : Column) :
    (endings cfg c).Inductive (Flagged c) where
  init s h := by
    obtain ⟨hs, hg⟩ := h
    refine ⟨hs.valid, ?_⟩
    rw [hs.positions, hg]
    exact .refl _
  step s a s' h hst := by
    obtain ⟨⟨r, hrun⟩, hg⟩ := hst
    have he := handle_effect (A := fun _ => True) (fun _ _ => trivial) hrun
    have hv' := he.valid h.valid
    obtain ⟨f, new, hm, hflags⟩ := he.moved h.valid
    have hk := hv'.positions.keyed
    refine ⟨hv', (hm.flagged hk).trans ?_⟩
    have hp := h.flagged.append_right (endedIn s.1.db s'.1.db)
    obtain ⟨req, as⟩ := a
    rw [hg]
    cases req with
    | applyLiquidation symbol =>
      refine hp.trans ?_
      show (s.2.liquidated ++ s.2.closed ++ _).Perm (s.2.liquidated ++ _ ++ s.2.closed)
      rw [List.append_assoc, List.append_assoc]
      exact List.perm_append_comm.append_left _
    | closePosition userId symbol =>
      refine hp.trans ?_
      rw [List.append_assoc]
      exact .refl _
    | createOrder | cancelOrder | syncBalance | setMarginType =>
      rw [hm.endedIn_nil hk (hflags id)] at hp ⊢
      simp only [List.append_nil] at hp ⊢
      exact hp

/-! ## The result -/

/-- The record of the regulator is the history of the liquidations. -/
structure RecordRight (cfg : Config) (db : Db) (liquidated : List ℕ) : Prop where
  total : ∀ alerts createdAt now,
    (getOverview cfg db alerts createdAt now).totalLiquidations = liquidated.length
  history : ∀ updatedAt limit, db.positions.length ≤ limit → ∀ p,
    p ∈ getLiquidationHistory db updatedAt none none limit ↔
      p ∈ db.positions ∧ p.id ∈ liquidated

/-- With a limit that is large enough, the rows with the flag. -/
theorem mem_getLiquidationHistory {updatedAt : ℕ → ℕ} {limit : ℕ}
    (hl : db.positions.length ≤ limit) {p : Position} :
    p ∈ getLiquidationHistory db updatedAt none none limit ↔
      p ∈ db.positions ∧ p.liquidated = true := by
  unfold getLiquidationHistory latestFirst
  rw [List.take_of_length_le, List.mem_mergeSort, List.mem_filter]
  · simp
  · rw [List.length_mergeSort]
    exact (List.length_filter_le _ _).trans hl

/-- **The liquidation record** is right, in every state of the ledger, exactly when no position has
been ended by `close_position`. -/
theorem record_right_iff (cfg : Config) (c : Column) {s : World × Ended}
    (hs : (endings cfg c).Reach s) :
    RecordRight cfg s.1.db s.2.liquidated ↔ s.2.closed = [] := by
  obtain ⟨hv, hflagged⟩ := (endings_flagged cfg c).reach hs
  have hlen := hflagged.length_eq
  rw [List.length_map, List.length_append] at hlen
  constructor
  · intro h
    have htotal := h.total [] (fun _ => 0) 0
    change (s.1.db.positions.filter fun p => p.liquidated).length = _ at htotal
    exact List.length_eq_zero_iff.mp (by omega)
  · intro hc
    rw [hc, List.append_nil] at hflagged
    rw [hc, List.length_nil, Nat.add_zero] at hlen
    refine ⟨fun _ _ _ => hlen, fun updatedAt limit hl p => ?_⟩
    rw [mem_getLiquidationHistory hl]
    refine and_congr_right fun hp => ?_
    rw [← hflagged.mem_iff, List.mem_map]
    constructor
    · exact fun hflag => ⟨p, List.mem_filter.mpr ⟨hp, hflag⟩, rfl⟩
    · rintro ⟨q, hq, hid⟩
      obtain ⟨hq, hflag⟩ := List.mem_filter.mp hq
      rwa [← hv.positions.keyed.eq_of_key hq hp hid]

/-! ## A position closed by its owner -/

namespace Sample

/-- A request handled alone, with the history, computed. -/
def endingsExec (s : World × Ended) (a : Request × List Answer) : Option (World × Ended) :=
  (handle config .exact a.1 a.2 s.1).map fun x => (x.1, Ended.record s.1 a x.1 s.2)

theorem endingsExec_step {s s' : World × Ended} {a : Request × List Answer}
    (h : endingsExec s a = some s') : (endings config .exact).step s a s' := by
  obtain ⟨⟨w, r⟩, hw, e⟩ := Option.map_eq_some_iff.mp h
  cases e
  exact ⟨⟨r, hw⟩, rfl⟩

/-- The answers to the calls of a `close_position` that succeeds, with the rows' id `n`. -/
def closing (price : PyFloat) (n : ℕ) : List Answer :=
  [{}, { price }, { exchange := .ok {} }, {}, { rowId := n }, { rowId := n, tradeId := n }]

/-- The user buys 1 BTC. -/
def bought : Request × List Answer :=
  (.createOrder (order "BTCUSDT" .buy 1 0), accepted (dec 1 2) 1)

/-- The ledger after requests, with the history. -/
theorem endings_reach {as : List (Request × List Answer)} {s : World × Ended}
    (h : as.foldlM endingsExec (start 1000, {}) = some s) :
    (endings config .exact).Reach s := by
  have hs : (endings config .exact).init (start 1000, {}) := ⟨seeded (by norm_num) rfl, rfl⟩
  exact .foldlM (fun _ _ _ _ h => endingsExec_step h) (.init hs) h

end Sample

open Sample in
/-- The result for a position that was liquidated. -/
theorem record_right_liquidated :
    ∃ s, (endings config .exact).Reach s ∧ s.2.liquidated = [1] ∧
      RecordRight config s.1.db s.2.liquidated := by
  have hrun : ([bought, (.applyLiquidation "BTCUSDT", [{}, {}, {}])].foldlM endingsExec
      (start 1000, {})).map (fun s => (s.2.liquidated, s.2.closed)) = some ([1], []) := by
    decide +kernel
  obtain ⟨s, hs, h⟩ := Option.map_eq_some_iff.mp hrun
  obtain ⟨hl, hc⟩ := Prod.mk.inj h
  have hreach := endings_reach hs
  exact ⟨s, hreach, hl, (record_right_iff config .exact hreach).mpr hc⟩

open Sample in
/-- A position that its owner closed is in the record, and nothing was liquidated. -/
theorem closed_reported_liquidated :
    ∃ s, (endings config .exact).Reach s ∧ s.2.liquidated = [] ∧ s.2.closed = [1] ∧
      (getOverview config s.1.db [] (fun _ => 0) 0).totalLiquidations = 1 ∧
      (getLiquidationHistory s.1.db (fun _ => 0) none none 200).map Position.id = [1] := by
  have hrun : ([bought, (.closePosition 1 "BTCUSDT", closing (dec 1 2) 2)].foldlM endingsExec
      (start 1000, {})).map (fun s => (s.2.liquidated, s.2.closed,
        (getOverview config s.1.db [] (fun _ => 0) 0).totalLiquidations,
        (getLiquidationHistory s.1.db (fun _ => 0) none none 200).map Position.id)) =
      some ([], [1], 1, [1]) := by decide +kernel
  obtain ⟨s, hs, h⟩ := Option.map_eq_some_iff.mp hrun
  simp only [Prod.mk.injEq] at h
  exact ⟨s, endings_reach hs, h⟩

end CryptoExchange
