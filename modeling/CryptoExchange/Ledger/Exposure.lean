import CryptoExchange.Ledger.Service

/-!
# Exposure

The risk check adds the order's notional to the exposure of the tables; the commit revalues the
whole position at the order's price and nets opposite sides. The two agree exactly when the order
meets no live position, or one that the revaluation changes by the order's notional
(`Revalued`). With exact arithmetic, runs whose orders all do stay within the limits.
-/

namespace CryptoExchange

open Lib Db

variable {cfg : Config} {c : Column} {db db' : Db}

/-! ## Sums -/

/-- A position's part in an exposure; `f` selects the positions. -/
def Position.exposed (f : Position → Bool) (p : Position) : ℚ :=
  if f p ∧ p.liquidated = false then p.notional else 0

/-- The exposure of the live positions that `f` selects. -/
def exposureOf (f : Position → Bool) (ps : List Position) : ℚ := (ps.map (Position.exposed f)).sum

theorem userExposure_eq (db : Db) (userId : ℤ) :
    db.userExposure userId = exposureOf (fun p => p.userId = userId) db.positions := by
  simp only [userExposure, sum_filter, decide_eq_true_eq, exposureOf]
  congr 1
  refine List.map_congr_left fun p _ => ?_
  simp [Position.exposed]

theorem globalExposure_eq (db : Db) :
    db.globalExposure = exposureOf (fun _ => true) db.positions := by
  simp only [globalExposure, livePositions, sum_filter, exposureOf]
  congr 1
  refine List.map_congr_left fun p _ => ?_
  simp [Position.exposed]

theorem exposureOf_append (f : Position → Bool) (ps : List Position) (p : Position) :
    exposureOf f (ps ++ [p]) = exposureOf f ps + p.exposed f := by
  simp [exposureOf]

theorem exposureOf_modify (f : Position → Bool) {ps : List Position} (hk : Keyed Position.id ps)
    {p : Position} (hp : p ∈ ps) (g : Position → Position) :
    exposureOf f (modify Position.id p.id g ps) =
      exposureOf f ps - p.exposed f + (g p).exposed f :=
  sum_modify (Position.exposed f) hk hp rfl

/-- Updates that lower every part lower the exposure. -/
theorem exposureOf_map_le (f : Position → Bool) {ps : List Position} {g : Position → Position}
    (h : ∀ p ∈ ps, (g p).exposed f ≤ p.exposed f) :
    exposureOf f (ps.map g) ≤ exposureOf f ps := by
  rw [exposureOf, exposureOf, List.map_map]
  exact List.sum_le_sum h

/-! ## What the commit does to the exposure -/

/-- The order changes the notional of the user's live position in the symbol by its own. -/
def Revalued (db : Db) (payload : OrderCreate) (price : ℚ) : Prop :=
  ∀ p ∈ db.livePositionsOf payload.userId payload.symbol,
    |p.quantity + payload.side.signed payload.size.value| * price =
      p.notional + payload.size.value * price

instance (db : Db) (payload : OrderCreate) (price : ℚ) : Decidable (Revalued db payload price) :=
  inferInstanceAs (Decidable (∀ p ∈ _, _))

namespace CreateOrder

variable {payload : OrderCreate} {A : Answer → Prop} {s : Placed cfg}
  {position : Option Position} {i t : ℕ}

theorem Placed.abs_signedQty (s : Placed cfg) : |s.signedQty| = s.orderSize := by
  have h : 0 < s.orderSize := s.payload.size_pos
  unfold signedQty Side.signed
  split
  · exact abs_of_pos h
  · rw [abs_neg, abs_of_pos h]

/-- The notional of the user's position in the symbol after the commit. -/
def Placed.newNotional (s : Placed cfg) : Option Position → ℚ
  | some p => |p.quantity + s.signedQty| * s.price
  | none => s.orderSize * s.price

/-- The notional that it had before. -/
def oldNotional : Option Position → ℚ
  | some p => p.notional
  | none => 0

/-- The exposure of any selection with the user's positions changes by the revaluation. -/
theorem Committed.exposureOf (hv : db.Valid .exact)
    (h : Committed .exact db payload A s position i t db') {f : Position → Bool}
    (hf : ∀ p, p.userId = payload.userId → f p = true) :
    exposureOf f db'.positions =
      exposureOf f db.positions - oldNotional position + s.newNotional position := by
  rw [h.eq hv]
  show CryptoExchange.exposureOf f (s.positions .exact position i db.positions) = _
  cases position with
  | none =>
    have hfp := hf (storePosition .exact (s.position i)) (congrArg OrderCreate.userId h.payload_eq)
    rw [Placed.positions, exposureOf_append, Position.exposed, if_pos ⟨hfp, rfl⟩]
    simp [storePosition, Placed.position, s.abs_signedQty, oldNotional, Placed.newNotional]
  | some p =>
    obtain ⟨hp, hu, -, hl⟩ := h.mem
    rw [h.payload_eq] at hu
    have hfp := hf (storePosition .exact (s.added p)) hu
    rw [Placed.positions, exposureOf_modify f hv.positions.keyed hp, Position.exposed,
      Position.exposed, if_pos ⟨hf p hu, hl⟩, if_pos ⟨hfp, hl⟩]
    rfl

/-- The exposure of another user's selection stays. -/
theorem Committed.exposureOf_other (hv : db.Valid c)
    (h : Committed c db payload A s position i t db') {f : Position → Bool}
    (hf : ∀ p, p.userId = payload.userId → f p = false) :
    CryptoExchange.exposureOf f db'.positions = CryptoExchange.exposureOf f db.positions := by
  rw [h.eq hv]
  show CryptoExchange.exposureOf f (s.positions c position i db.positions) = _
  cases position with
  | none =>
    have hfp := hf (storePosition c (s.position i)) (congrArg OrderCreate.userId h.payload_eq)
    rw [Placed.positions, exposureOf_append, Position.exposed, hfp]
    simp
  | some p =>
    obtain ⟨hp, hu, -, -⟩ := h.mem
    rw [h.payload_eq] at hu
    have hfp := hf (storePosition c (s.added p)) hu
    rw [Placed.positions, exposureOf_modify f hv.positions.keyed hp, Position.exposed,
      Position.exposed, hf p hu, hfp]
    simp

/-- Whether the revaluation is the order's notional. -/
theorem Committed.revalued_iff (h : Committed c db payload A s position i t db') :
    Revalued db payload s.price ↔
      s.newNotional position = oldNotional position + s.orderSize * s.price := by
  unfold Revalued
  rw [h.position_eq]
  have e : payload = s.payload := h.payload_eq.symm
  cases position with
  | none => simp [Placed.newNotional, oldNotional]
  | some p =>
    simp only [Option.toList_some, List.mem_singleton, forall_eq, e]
    rfl

end CreateOrder

/-! ## The limits -/

theorem userExposureFraction_nonneg (tier : String) :
    0 ≤ (userExposureFraction.lookup tier).getD 0.05 := by
  cases h : userExposureFraction.lookup tier with
  | none => norm_num
  | some x =>
    obtain ⟨t, ht⟩ := lookup_mem h
    simp only [userExposureFraction, List.mem_cons, Prod.mk.injEq, List.not_mem_nil, or_false] at ht
    rcases ht with ⟨-, rfl⟩ | ⟨-, rfl⟩ | ⟨-, rfl⟩ <;> norm_num [Option.getD]

/-- The exposures are within the limits. -/
structure Limited (cfg : Config) (db : Db) : Prop where
  valid : db.Valid .exact
  notional_nonneg : ∀ p ∈ db.positions, 0 ≤ p.notional
  global : db.globalExposure ≤ cfg.globalExposureThreshold
  user : ∀ u ∈ db.users, db.userExposure u.id ≤ userExposureLimit cfg (riskTier cfg u)

theorem Seeded.limited (h : Seeded .exact db) (ht : 0 ≤ cfg.globalExposureThreshold) :
    Limited cfg db where
  valid := h.valid
  notional_nonneg p hp := by rw [h.positions] at hp; cases hp
  global := by rw [globalExposure_eq, h.positions]; exact ht
  user u _ := by
    rw [userExposure_eq, h.positions]
    exact mul_nonneg ht (userExposureFraction_nonneg _)

/-- An update of the positions that brings no exposure. -/
theorem Limited.lower (h : Limited cfg db) (hv : db'.Valid .exact) (hu : db'.users = db.users)
    {g : Position → Position} (hp : db'.positions = db.positions.map g)
    (hg : ∀ p ∈ db.positions, (g p).userId = p.userId ∧ (g p).notional = p.notional ∧
      ((g p).liquidated = false → p.liquidated = false)) : Limited cfg db' := by
  have hle : ∀ f : Position → Bool, (∀ p ∈ db.positions, f (g p) = f p) →
      exposureOf f db'.positions ≤ exposureOf f db.positions := by
    intro f hf
    rw [hp]
    refine exposureOf_map_le f fun p hp => ?_
    obtain ⟨-, hn, hl⟩ := hg p hp
    unfold Position.exposed
    rw [hf p hp, hn]
    split
    · rename_i hs
      rw [if_pos ⟨hs.1, hl hs.2⟩]
    · split
      · exact h.notional_nonneg p hp
      · exact le_rfl
  refine ⟨hv, ?_, ?_, ?_⟩
  · intro p' hp'
    rw [hp] at hp'
    obtain ⟨p, hpm, rfl⟩ := List.mem_map.mp hp'
    rw [(hg p hpm).2.1]
    exact h.notional_nonneg p hpm
  · rw [globalExposure_eq]
    exact (hle _ fun _ _ => rfl).trans (globalExposure_eq db ▸ h.global)
  · intro u hm
    rw [hu] at hm
    rw [userExposure_eq]
    refine (hle _ fun p hp => ?_).trans (userExposure_eq db u.id ▸ h.user u hm)
    rw [(hg p hp).1]

namespace CreateOrder

variable {payload : OrderCreate} {A : Answer → Prop} {s : Placed cfg}
  {position : Option Position} {i t : ℕ}

theorem Committed.userExposure_after (hv : db.Valid .exact)
    (h : Committed .exact db payload A s position i t db') :
    db'.userExposure payload.userId =
      db.userExposure payload.userId - oldNotional position + s.newNotional position := by
  rw [userExposure_eq, userExposure_eq]
  exact h.exposureOf hv fun p hp => by simp [hp]

theorem Committed.globalExposure_after (hv : db.Valid .exact)
    (h : Committed .exact db payload A s position i t db') :
    db'.globalExposure = db.globalExposure - oldNotional position + s.newNotional position := by
  rw [globalExposure_eq, globalExposure_eq]
  exact h.exposureOf hv fun _ _ => rfl

/-- What was checked. -/
theorem Committed.checked_eq (h : Committed c db payload A s position i t db') :
    s.approval.userExposureAfter = db.userExposure payload.userId + s.orderSize * s.price ∧
    s.approval.globalExposureAfter = db.globalExposure + s.orderSize * s.price :=
  ⟨by rw [s.approved.userExposureAfter, ← h.userExposure]; rfl,
   by rw [s.approved.globalExposureAfter, ← h.globalExposure]; rfl⟩

/-- **The exposure that was checked is committed** exactly when the order is the revaluation. -/
theorem Committed.exposure_iff (hv : db.Valid .exact)
    (h : Committed .exact db payload A s position i t db') :
    (db'.userExposure payload.userId = s.approval.userExposureAfter ∧
      db'.globalExposure = s.approval.globalExposureAfter) ↔ Revalued db payload s.price := by
  obtain ⟨hu, hg⟩ := h.checked_eq
  rw [h.revalued_iff, hu, hg, h.userExposure_after hv, h.globalExposure_after hv]
  constructor
  · rintro ⟨e, -⟩; linarith
  · intro e; constructor <;> linarith

end CreateOrder

theorem Limited.createOrder (hl : Limited cfg db) {payload : OrderCreate} {A : Answer → Prop}
    {s : CreateOrder.Placed cfg} {position : Option Position} {i t : ℕ}
    (h : CreateOrder.Committed .exact db payload A s position i t db') (hp : 0 ≤ s.price)
    (hr : Revalued db payload s.price) : Limited cfg db' := by
  obtain ⟨eu, eg⟩ := (h.exposure_iff hl.valid).mpr hr
  have hv := hl.valid.flush h.flush
  have hsize : 0 < s.orderSize := s.payload.size_pos
  have e := h.eq hl.valid
  refine ⟨hv, ?_, eg ▸ s.approved.global_le, ?_⟩
  · intro p' hp'
    rw [e] at hp'
    cases position with
    | none =>
      rcases List.mem_append.mp hp' with hp' | hp'
      · exact hl.notional_nonneg p' hp'
      · rw [List.mem_singleton.mp hp']
        exact mul_nonneg (abs_nonneg _) hp
    | some p =>
      obtain ⟨q, hq, rfl⟩ := mem_modify.mp hp'
      split
      · exact mul_nonneg (abs_nonneg _) hp
      · exact hl.notional_nonneg q hq
  · intro u hu
    have hus : db'.users = db.users := by rw [e]; rfl
    rw [hus] at hu
    by_cases hid : u.id = payload.userId
    · have hm : u ∈ db.selectUser payload.userId := by simp [selectUser, hu, hid]
      rw [h.user, List.mem_singleton] at hm
      rw [hid, eu, hm]
      exact s.approved.user_le
    · rw [userExposure_eq, h.exposureOf_other hl.valid (fun p hp => ?_), ← userExposure_eq]
      · exact hl.user u hu
      · simp [hp, Ne.symm hid]

theorem Limited.effect (h : Limited cfg db) {A : Answer → Prop} {req : Request}
    (hr : ∀ payload, req = .createOrder payload → ∀ x, Reported A x →
      0 ≤ payload.price x ∧ Revalued db payload (payload.price x))
    (he : Effect cfg .exact A db req db') : Limited cfg db' := by
  have hv := he.valid h.valid
  cases he with
  | same => exact h
  | @createOrder payload s position i t _ hc =>
    obtain ⟨hp, hrev⟩ := hr _ rfl _ hc.market
    have e : s.price = payload.price s.current := by
      rw [CreateOrder.Checked.price, hc.payload_eq]
    exact h.createOrder hc (e ▸ hp) (e ▸ hrev)
  | @closePosition userId symbol s closePrice account o t _ hc _ =>
    have e := hc.eq h.valid
    obtain ⟨hp, -, -, hl⟩ := hc.mem
    refine h.lower hv (by rw [e]; rfl) (by rw [e]; rfl) fun p hpm => ?_
    split
    · rename_i hid
      rw [h.valid.positions.keyed.eq_of_key hpm hp hid]
      exact ⟨rfl, rfl, fun _ => hl⟩
    · exact ⟨rfl, rfl, id⟩
  | cancelOrder hc =>
    obtain ⟨-, -, -, e⟩ := hc.eq h.valid
    rw [e] at hv ⊢
    exact ⟨hv, h.notional_nonneg, h.global, h.user⟩
  | syncBalance hc =>
    have e := hc.eq h.valid
    rw [e] at hv ⊢
    exact ⟨hv, h.notional_nonneg, h.global, h.user⟩
  | setMarginType hc =>
    obtain ⟨f, e⟩ := SetMarginType.flush_eq
      (h.valid.positions.keyed.sublist (List.filter_sublist.map _)) hc
    have ep : db'.positions = db.positions.map fun p => { p with marginType := f p } := by rw [e]
    exact h.lower hv (by rw [e]) ep fun p _ => ⟨rfl, rfl, id⟩
  | applyLiquidation hc =>
    have e := hc.eq h.valid
    refine h.lower hv (by rw [e]; rfl) (by rw [e]; rfl) fun p _ => ?_
    split
    · rename_i hs
      exact ⟨rfl, rfl, fun _ => hs.2⟩
    · exact ⟨rfl, rfl, id⟩

/-! ## Every run -/

/-- The prices that the exchange reports in these answers. -/
def prices (as : List Answer) : List PyFloat := as.filterMap Answer.price

theorem mem_prices {as : List Answer} {x : PyFloat} (h : Reported (· ∈ as) x) : x ∈ prices as :=
  List.mem_filterMap.mpr h

/-- What `create_order` does alone, when it succeeds. -/
theorem handle_createOrder {payload : OrderCreate} {as : List Answer} {w w' : World}
    {r : CreateOrder.Reply}
    (h : handle cfg c (.createOrder payload) as w = some (w', .ok (.order r))) :
    ∃ (s : CreateOrder.Placed cfg) (position : Option Position) (i t : ℕ) (o : Order),
      CreateOrder.Committed c w.db payload (· ∈ as) s position i t w'.db ∧
      findRow Order.id s.orderId w'.db.orders = some o ∧ r = s.result o := by
  obtain ⟨r', h', e⟩ := run_lift (CreateOrder.step cfg c) .createOrder .order (fun _ _ _ => rfl) h
  cases r' with
  | error f => cases e
  | ok r' =>
    cases e
    rcases CreateOrder.run_alone (fun _ ha => ha) h' with
      ⟨-, hn⟩ | ⟨s, position, i, t, hc, hr⟩
    · exact absurd rfl (hn r)
    · obtain ⟨o, ho, e⟩ := hr r rfl
      exact ⟨s, position, i, t, o, hc, ho, e⟩

/-- Each order meets no live position, or one that it revalues by its own notional, at a price that
is not negative. -/
def RevaluedOrder (w : World) (a : Request × List Answer) : Prop :=
  ∀ payload, a.1 = .createOrder payload → ∀ x ∈ prices a.2,
    0 ≤ payload.price x ∧ Revalued w.db payload (payload.price x)

theorem ledger_limited (ht : 0 ≤ cfg.globalExposureThreshold) :
    ((ledger cfg .exact).restrict RevaluedOrder).Inductive fun w => Limited cfg w.db where
  init _ h := Seeded.limited h ht
  step w a _ h := by
    rintro ⟨hr, r, hrun⟩
    exact h.effect (fun p hp x hx => hr p hp x (mem_prices hx)) (handle_effect (fun _ hb => hb) hrun)

theorem ledger_valid (cfg : Config) (c : Column) :
    (ledger cfg c).Inductive fun w => w.db.Valid c where
  init _ h := h.valid
  step w a _ h := by
    rintro ⟨r, hrun⟩
    exact (handle_effect (A := fun _ => True) (fun _ _ => trivial) hrun).valid h

/-- **Exposure checked and committed.** An accepted order in a reachable state was checked with
the exposures plus its notional, and these are the exposures after the commit exactly when the
order is the revaluation of the live position. Runs with only such orders stay in the limits. -/
theorem exposure_committed_iff (cfg : Config) (ht : 0 ≤ cfg.globalExposureThreshold) :
    (∀ w, (ledger cfg .exact).Reach w → ∀ payload as w' r,
      handle cfg .exact (.createOrder payload) as w = some (w', .ok (.order r)) →
      ∃ (a : Approval) (x : PyFloat), x ∈ prices as ∧
        a.userExposureAfter =
          w.db.userExposure payload.userId + payload.size.value * payload.price x ∧
        a.globalExposureAfter = w.db.globalExposure + payload.size.value * payload.price x ∧
        a.globalExposureAfter ≤ cfg.globalExposureThreshold ∧
        (∀ u ∈ w.db.users, u.id = payload.userId →
          a.userExposureAfter ≤ userExposureLimit cfg (riskTier cfg u)) ∧
        r.userExposureAfter = cfg.float a.userExposureAfter ∧
        r.globalExposureAfter = cfg.float a.globalExposureAfter ∧
        ((w'.db.userExposure payload.userId = a.userExposureAfter ∧
          w'.db.globalExposure = a.globalExposureAfter) ↔
            Revalued w.db payload (payload.price x))) ∧
    ∀ w, ((ledger cfg .exact).restrict RevaluedOrder).Reach w →
      w.db.globalExposure ≤ cfg.globalExposureThreshold ∧
      ∀ u ∈ w.db.users, w.db.userExposure u.id ≤ userExposureLimit cfg (riskTier cfg u) := by
  constructor
  · intro w hw payload as w' r hrun
    have hv := (ledger_valid cfg .exact).reach hw
    obtain ⟨s, position, i, t, o, hc, -, rfl⟩ := handle_createOrder hrun
    have e : s.payload = payload := hc.payload_eq
    have hprice : s.price = payload.price s.current := by rw [CreateOrder.Checked.price, e]
    have hsize : s.orderSize = payload.size.value := by rw [CreateOrder.Loaded.orderSize, e]
    obtain ⟨hu, hg⟩ := hc.checked_eq
    rw [hprice, hsize] at hu hg
    refine ⟨s.approval, s.current, mem_prices hc.market, hu, hg, s.approved.global_le, ?_, rfl, rfl,
      hprice ▸ hc.exposure_iff hv⟩
    intro u hu hid
    have hm : u ∈ w.db.selectUser payload.userId := by simp [selectUser, hu, hid]
    rw [hc.user, List.mem_singleton] at hm
    exact hm ▸ s.approved.user_le
  · intro w hw
    have h := (ledger_limited ht).reach hw
    exact ⟨h.global, h.user⟩

open Sample in
/-- The result for a first order. -/
theorem exposure_committed_iff_first :
    ∃ w' r, handle config .exact (.createOrder (order "BTCUSDT" .buy 1 0)) (accepted (dec 1 2) 1)
        (start 1000) = some (w', .ok (.order r)) ∧
      ∃ a : Approval, w'.db.userExposure 1 = a.userExposureAfter ∧
        w'.db.globalExposure = a.globalExposureAfter := by
  have hrun : (placeOrder config .exact (order "BTCUSDT" .buy 1 0) (accepted (dec 1 2) 1)
      (start 1000)).isSome := by decide +kernel
  obtain ⟨⟨w', r⟩, hw⟩ := Option.isSome_iff_exists.mp hrun
  have hw := placeOrder_eq hw
  have hs : (ledger config .exact).init (start 1000) := seeded (by norm_num) rfl
  obtain ⟨a, x, -, -, -, -, -, -, -, h⟩ :=
    (exposure_committed_iff config (by decide +kernel)).1 _ (.init hs) _ _ _ _ hw
  have hrev : Revalued (start 1000).db (order "BTCUSDT" .buy 1 0)
    ((order "BTCUSDT" .buy 1 0).price x) := by
    intro p hp
    cases hp
  exact ⟨w', r, hw, a, h.mpr hrev⟩

open Sample in
/-- 1000 units bought at 100, then one more at 500: checked with 100500, committed with 500500, which
is over the user's limit of 500000. -/
theorem exposure_checked_not_committed :
    ∃ w w' r, (ledger config .exact).Reach w ∧
      handle config .exact (.createOrder (order "BTCUSDT" .buy 1 0)) (accepted (dec 5 2) 2) w =
        some (w', .ok (.order r)) ∧
      r.userExposureAfter.value = 100500 ∧ w'.db.userExposure 1 = 500500 ∧
      userExposureLimit config "standard" < w'.db.userExposure 1 := by
  let first : Request × List Answer :=
    (.createOrder (order "BTCUSDT" .buy 1 3), accepted (dec 1 2) 1)
  have hrun : ((handle config .exact first.1 first.2 (start 1000000)).bind fun x =>
      (placeOrder config .exact (order "BTCUSDT" .buy 1 0) (accepted (dec 5 2) 2) x.1).map fun y =>
        (y.2.userExposureAfter.value, y.1.db.userExposure 1)) = some (100500, 500500) := by
    decide +kernel
  obtain ⟨⟨w, r₁⟩, hw, h⟩ := Option.bind_eq_some_iff.mp hrun
  obtain ⟨⟨w', r⟩, hw', h⟩ := Option.map_eq_some_iff.mp h
  obtain ⟨h₁, h₂⟩ := Prod.mk.inj h
  have hs : (ledger config .exact).init (start 1000000) := seeded (by norm_num) rfl
  refine ⟨w, w', r, .step first (.init hs) ⟨r₁, hw⟩, placeOrder_eq hw', h₁, h₂, ?_⟩
  rw [h₂]
  decide +kernel

end CryptoExchange
