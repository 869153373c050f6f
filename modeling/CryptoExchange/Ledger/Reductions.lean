import CryptoExchange.Ledger.Brackets

/-!
# Orders that reduce a position

`create_order` adds to the quantity with a sign and to the margin without one: an order against the
live position reserves margin on top of what the position holds, and a position that such orders
bring to 0 stays live with all of it. Only `close_position` releases.

* `Reduces`: an order against the live position, not larger than it.
* `Reserves`: the margin that an accepted order reserves.
* `Unheld`: no margin is held by a live position of quantity 0.
* `Committed.flattened_iff`: which orders keep that. `Effect.unheld` is the step rule.
* `reduction_iff`: the result, for one order and for every run.
-/

namespace CryptoExchange

open Lib Db

variable {cfg : Config} {c : Column} {db db' : Db}

/-! ## Reducing and flattening -/

/-- The order is against the position, and not larger. -/
structure Reduces (p : Position) (o : OrderCreate) : Prop where
  opposite : 0 < p.quantity ∧ o.side = .sell ∨ p.quantity < 0 ∧ o.side = .buy
  size_le : o.size.value ≤ |p.quantity|

/-- The margin of the user's live positions in the symbol. -/
def Db.heldMarginOf (db : Db) (userId : ℤ) (symbol : String) : ℚ :=
  ((db.livePositionsOf userId symbol).map Position.margin).sum

/-- `m` is what the order reserves, at a price and a volatility that it was answered. -/
def Reserves (cfg : Config) (db : Db) (payload : OrderCreate) (as : List Answer) (m : ℚ) : Prop :=
  ∃ x ∈ prices as, ∃ b ∈ as, ∃ user, db.selectUser payload.userId = [user] ∧
    m = payload.margin cfg b.vol user (payload.price x)

/-- The order brings the quantity to 0, as the column keeps it. -/
def Flattens (c : Column) (db : Db) (payload : OrderCreate) : Prop :=
  c.store (db.liveQuantity payload.userId payload.symbol +
    payload.side.signed payload.size.value) = 0

/-- Nothing is reserved for the position that the order flattens: neither so far nor for it. -/
def FlattensNothingHeld (c : Column) (db : Db) (payload : OrderCreate) (m : ℚ) : Prop :=
  Flattens c db payload →
    db.heldMarginOf payload.userId payload.symbol = 0 ∧ c.store m = 0

/-- No live position of quantity 0 holds margin. -/
def Unheld (db : Db) : Prop :=
  ∀ p ∈ db.positions, p.liquidated = false → p.quantity = 0 → p.margin = 0

theorem Seeded.unheld (h : Seeded c db) : Unheld db := by
  intro p hp
  rw [h.positions] at hp
  cases hp

theorem sum_toList {α : Type} (f : α → ℚ) (x : Option α) :
    (x.toList.map f).sum = (x.map f).getD 0 := by
  cases x with
  | none => rfl
  | some a => simp

theorem Db.marginUsedOf_stored (hv : db.Valid c) (hn : Nonneg db) (userId : ℤ) :
    c.Holds (db.marginUsedOf userId) ∧ 0 ≤ db.marginUsedOf userId := by
  unfold Db.marginUsedOf
  cases h : findRow Account.userId userId db.accounts with
  | none => exact ⟨c.holds_zero, le_rfl⟩
  | some a =>
    obtain ⟨ha, -⟩ := findRow_mem h
    exact ⟨(hv.accounts.rows a ha).2, hn.marginUsed a ha⟩

/-! ## One order -/

namespace CreateOrder

variable {payload : OrderCreate} {A : Answer → Prop} {s : Placed cfg}
  {position : Option Position} {i t : ℕ}

theorem Committed.reserves {as : List Answer}
    (h : Committed c db payload (· ∈ as) s position i t db') :
    Reserves cfg db payload as s.approval.requiredMargin := by
  obtain ⟨b, hb, hvol⟩ := h.volatility
  refine ⟨s.current, mem_prices h.market, b, hb, s.user, h.user, ?_⟩
  rw [h.requiredMargin_eq, hvol, Checked.price, h.payload_eq]

theorem Committed.requiredMargin_nonneg {as : List Answer} (hp : PositivePrices as)
    (h : Committed c db payload (· ∈ as) s position i t db') : 0 ≤ s.approval.requiredMargin := by
  obtain ⟨a, ha, hx⟩ := h.market
  exact (s.approved.requiredMargin_pos (s.payload.price_pos (hp a ha _ hx))).le

/-- What the commit read of the live position. -/
theorem Committed.held (h : Committed c db payload A s position i t db') :
    db.liveQuantity payload.userId payload.symbol = (position.map Position.quantity).getD 0 ∧
      db.heldMarginOf payload.userId payload.symbol = (position.map Position.margin).getD 0 := by
  unfold Db.liveQuantity Db.heldMarginOf
  rw [h.position_eq]
  exact ⟨sum_toList _ _, sum_toList _ _⟩

theorem Committed.signedQty_eq (h : Committed c db payload A s position i t db') :
    s.signedQty = payload.side.signed payload.size.value := by
  rw [← h.payload_eq]
  rfl

/-- Every other position is as it was. -/
theorem Committed.mem_positions (hv : db.Valid c)
    (h : Committed c db payload A s position i t db') {p : Position} (hp : p ∈ db'.positions) :
    p ∈ db.positions ∨ p ∈ db'.livePositionsOf payload.userId payload.symbol := by
  by_cases hlive : p ∈ db'.livePositionsOf payload.userId payload.symbol
  · exact .inr hlive
  refine .inl ?_
  have e : s.payload = payload := h.payload_eq
  rw [mem_livePositionsOf] at hlive
  rw [h.eq hv] at hp hlive
  cases position with
  | none =>
    rcases List.mem_append.mp hp with hp' | hp'
    · exact hp'
    · rw [List.mem_singleton.mp hp'] at hp hlive
      exact absurd ⟨hp, congrArg OrderCreate.userId e, congrArg OrderCreate.symbol e, rfl⟩ hlive
  | some q =>
    obtain ⟨q', hq', rfl⟩ := mem_modify.mp hp
    split
    · rename_i hid
      rw [if_pos hid] at hp hlive
      obtain ⟨-, hu, hs, hl⟩ := h.mem
      exact absurd ⟨hp, hu.trans (congrArg OrderCreate.userId e),
        hs.trans (congrArg OrderCreate.symbol e), hl⟩ hlive
    · exact hq'

/-- **Step rule.** No margin stays held at quantity 0 when the order flattens nothing that holds
some. -/
theorem Committed.unheld (hv : db.Valid c) (h : Committed c db payload A s position i t db')
    (hm : FlattensNothingHeld c db payload s.approval.requiredMargin) (hu : Unheld db) :
    Unheld db' := by
  obtain ⟨hq, hmargin⟩ := h.held
  obtain ⟨p, hlive, hquantity, -, hheld⟩ := h.live hv
  intro p' hp' hl h0
  rcases h.mem_positions hv hp' with hp' | hp'
  · exact hu p' hp' hl h0
  · rw [hlive, List.mem_singleton] at hp'
    subst hp'
    rw [hquantity, ← hq, h.signedQty_eq] at h0
    obtain ⟨hm0, hs0⟩ := hm h0
    rw [hheld, ← hmargin, hm0, zero_add, hs0]

/-- With positive prices that is the only way. -/
theorem Committed.flattened_iff {as : List Answer} (hv : db.Valid c) (hn : Nonneg db)
    (hp : PositivePrices as) (h : Committed c db payload (· ∈ as) s position i t db')
    (hu : Unheld db) :
    Unheld db' ↔ FlattensNothingHeld c db payload s.approval.requiredMargin := by
  refine ⟨fun hu' hflat => ?_, fun hm => h.unheld hv hm hu⟩
  obtain ⟨hq, hmargin⟩ := h.held
  obtain ⟨p, hlive, hquantity, -, hheld⟩ := h.live hv
  have hr := h.requiredMargin_nonneg hp
  have hp' : p ∈ db'.livePositionsOf payload.userId payload.symbol := by
    rw [hlive]; exact List.mem_cons_self
  obtain ⟨hmem, -, -, hl⟩ := mem_livePositionsOf.mp hp'
  have h0 : p.quantity = 0 := by
    rw [hquantity, ← hq, h.signedQty_eq]
    exact hflat
  have hm0 := hu' p hmem hl h0
  -- both parts of the sum are nonnegative
  have hold : c.Holds (db.heldMarginOf payload.userId payload.symbol) ∧
      0 ≤ db.heldMarginOf payload.userId payload.symbol := by
    rw [hmargin]
    cases position with
    | none => exact ⟨c.holds_zero, le_rfl⟩
    | some q =>
      obtain ⟨hqm, -⟩ := h.mem
      exact ⟨(hv.positions.rows q hqm).2.2.2, hn.margin q hqm⟩
  rw [hheld, ← hmargin, c.store_add _ _ hold.1 hold.2 hr] at hm0
  have hs := c.store_nonneg hr
  exact ⟨by linarith, by linarith⟩

/-- An order adds its own margin, whichever side it is on. -/
theorem Committed.margins {as : List Answer} (hv : db.Valid c) (hn : Nonneg db)
    (hp : PositivePrices as) {p : Position}
    (h : Committed c db payload (· ∈ as) s (some p) i t db') :
    db'.marginUsedOf payload.userId =
        db.marginUsedOf payload.userId + c.store s.approval.requiredMargin ∧
      ∃ p', db'.livePositionsOf payload.userId payload.symbol = [p'] ∧
        p'.margin = p.margin + c.store s.approval.requiredMargin := by
  have hr := h.requiredMargin_nonneg hp
  obtain ⟨hstored, h0⟩ := db.marginUsedOf_stored hv hn payload.userId
  obtain ⟨p', hlive, -, -, hm⟩ := h.live hv
  obtain ⟨hpm, -⟩ := h.mem
  refine ⟨?_, p', hlive, ?_⟩
  · rw [h.marginUsed hv, c.store_add _ _ hstored h0 hr]
  · rw [hm]
    exact c.store_add _ _ (hv.positions.rows p hpm).2.2.2 (hn.margin p hpm) hr

end CreateOrder

/-- Neither `margin_used` nor the margin in the symbol is more than before. -/
structure NoMoreMargin (db db' : Db) (userId : ℤ) (symbol : String) : Prop where
  marginUsed : db'.marginUsedOf userId ≤ db.marginUsedOf userId
  heldMargin : db'.heldMarginOf userId symbol ≤ db.heldMarginOf userId symbol

theorem CreateOrder.Committed.noMoreMargin_iff {payload : OrderCreate} {as : List Answer}
    {s : CreateOrder.Placed cfg} {p : Position} {i t : ℕ} (hv : db.Valid c) (hn : Nonneg db)
    (hp : PositivePrices as)
    (h : CreateOrder.Committed c db payload (· ∈ as) s (some p) i t db') :
    NoMoreMargin db db' payload.userId payload.symbol ↔
      c.store s.approval.requiredMargin = 0 := by
  obtain ⟨hused, p', hlive, hm⟩ := h.margins hv hn hp
  have hs := c.store_nonneg (h.requiredMargin_nonneg hp)
  have hheld : db'.heldMarginOf payload.userId payload.symbol =
      db.heldMarginOf payload.userId payload.symbol + c.store s.approval.requiredMargin := by
    rw [h.held.2, Db.heldMarginOf, hlive]
    simpa using hm
  constructor
  · rintro ⟨hle, -⟩
    linarith
  · intro h0
    exact ⟨by rw [hused, h0, add_zero], by rw [hheld, h0, add_zero]⟩

/-! ## Every run -/

/-- An order that the step may place flattens nothing that holds margin. -/
def NothingHeld (cfg : Config) (c : Column) (w : World) (a : Request × List Answer) : Prop :=
  ∀ payload, a.1 = .createOrder payload → ∀ m, Reserves cfg w.db payload a.2 m →
    FlattensNothingHeld c w.db payload m

/-- Updates that end positions, or leave quantity and margin. -/
theorem Unheld.map {g : Position → Position} (hu : Unheld db)
    (e : db'.positions = db.positions.map g)
    (hg : ∀ p, (g p).liquidated = false →
      p.liquidated = false ∧ (g p).quantity = p.quantity ∧ (g p).margin = p.margin) :
    Unheld db' := by
  intro p' hp' hl h0
  rw [e] at hp'
  obtain ⟨p, hp, rfl⟩ := List.mem_map.mp hp'
  obtain ⟨hlive, hquantity, hmargin⟩ := hg p hl
  rw [hmargin]
  exact hu p hp hlive (hquantity ▸ h0)

/-- **One request or event.** -/
theorem Effect.unheld {req : Request} {as : List Answer} (hv : db.Valid c) (hu : Unheld db)
    (hm : ∀ payload, req = .createOrder payload → ∀ m, Reserves cfg db payload as m →
      FlattensNothingHeld c db payload m)
    (he : Effect cfg c (· ∈ as) db req db') : Unheld db' := by
  cases he with
  | same => exact hu
  | createOrder hc => exact hc.unheld hv (hm _ rfl _ hc.reserves) hu
  | cancelOrder hc =>
    obtain ⟨-, -, -, e⟩ := hc.eq hv
    rw [e]
    exact hu
  | syncBalance hc =>
    rw [hc.eq hv]
    exact hu
  | closePosition hc _ =>
    rw [hc.eq hv]
    refine hu.map rfl fun p hl => ?_
    split at hl
    · cases hl
    · rename_i hid
      rw [if_neg hid]
      exact ⟨hl, rfl, rfl⟩
  | setMarginType hc =>
    obtain ⟨f, e⟩ := SetMarginType.flush_eq
      (hv.positions.keyed.sublist (List.filter_sublist.map _)) hc
    rw [e]
    exact hu.map rfl fun p hl => ⟨hl, rfl, rfl⟩
  | applyLiquidation hc =>
    rw [hc.eq hv]
    refine hu.map rfl fun p hl => ?_
    split at hl
    · cases hl
    · rename_i hs
      rw [if_neg hs]
      exact ⟨hl, rfl, rfl⟩

theorem ledger_unheld (cfg : Config) (c : Column) :
    ((ledger cfg c).restrict (NothingHeld cfg c)).Inductive
      fun w => w.db.Valid c ∧ Unheld w.db where
  init _ h := ⟨h.valid, h.unheld⟩
  step _ _ _ h := by
    rintro ⟨hm, r, hr⟩
    have he := handle_effect (fun _ ha => ha) hr
    exact ⟨he.valid h.1, he.unheld h.1 h.2 hm⟩

namespace Sample

/-- Quantity and margin of user 1's live positions in BTCUSDT, and the user's `margin_used`. -/
def holding (w : World) : List (ℚ × ℚ) × ℚ :=
  ((w.db.livePositionsOf 1 "BTCUSDT").map fun p => (p.quantity, p.margin), w.db.marginUsedOf 1)

/-- A buy of 1 BTC at 100 has reserved 10. A sell of 1 is accepted, and leaves 20 reserved. -/
theorem flattened_run :
    ∃ w w' r, ((ledger config (.numeric 8)).restrict fun _ a => PositivePrices a.2).Reach w ∧
      placeOrder config (.numeric 8) (order "BTCUSDT" .sell 1 0) (accepted (dec 1 2) 2) w =
        some (w', r) ∧
      holding w = ([(1, 10)], 10) ∧ holding w' = ([(0, 20)], 20) := by
  have hrun : (placeOrder config (.numeric 8) (order "BTCUSDT" .buy 1 0) (accepted (dec 1 2) 1)
      (start 1000)).bind (fun x =>
        (placeOrder config (.numeric 8) (order "BTCUSDT" .sell 1 0) (accepted (dec 1 2) 2) x.1).map
          fun y => (holding x.1, holding y.1)) =
      some (([(1, 10)], 10), ([(0, 20)], 20)) := by decide +kernel
  obtain ⟨⟨w, r⟩, hw, h⟩ := Option.bind_eq_some_iff.mp hrun
  obtain ⟨⟨w', r'⟩, hw', h⟩ := Option.map_eq_some_iff.mp h
  have hp : PositivePrices (accepted (dec 1 2) 1) := by decide +kernel
  exact ⟨w, w', r', .step (.createOrder _, _)
    (.init (seeded (by norm_num) (by decide +kernel))) ⟨hp, _, placeOrder_eq hw⟩, hw',
    congrArg Prod.fst h, congrArg Prod.snd h⟩

theorem holding_some {w : World} {q m u : ℚ} (h : holding w = ([(q, m)], u)) :
    w.db.marginUsedOf 1 = u ∧
      ∃ p, w.db.livePositionsOf 1 "BTCUSDT" = [p] ∧ p.quantity = q ∧ p.margin = m := by
  obtain ⟨hlive, hu⟩ := Prod.mk.inj h
  obtain ⟨p, hp, e⟩ := List.map_eq_singleton_iff.mp hlive
  obtain ⟨hq, hm⟩ := Prod.mk.inj e
  exact ⟨hu, p, hp, hq, hm⟩

end Sample

end CryptoExchange
