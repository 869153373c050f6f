import CryptoExchange.Ledger.Failures
import CryptoExchange.Ledger.Trades

/-!
# One account at the exchange

All users trade through one account of the exchange, in one-way mode: its position in a symbol is
what all their orders net out to. An `ACCOUNT_UPDATE` with the amount 0 ends every live position in
the symbol, and opposite positions of two users also net out to 0.

* `OneWay`: the world, and the updates that the exchange has sent. `oneWay` is the system of
  successful `create_order` and `close_position` calls and of updates that are processed, each at
  any time after it was sent, in any order, once, often or never.
* `InStep`: the exchange's position amounts are the sums of the live quantities. Every step keeps
  it, when order sizes fit their column.
* `SpeaksForAll`: an update with the amount 0 is processed while it is still true, and no two live
  positions in the symbol are opposite.
* `others_stay_open`: in such runs only the owner's own `close_position` ends a position that is not
  0. `others_position_ended` is a run that does not keep to it.
-/

namespace CryptoExchange

open Lib Db

variable {cfg : Config} {c : Column} {db db' : Db}

/-! ## The exchange's account -/

/-- What an accepted order adds to the position in the symbol. -/
def ExchangeRequest.signed (symbol : String) : ExchangeRequest → ℚ
  | .newOrder s side _ quantity _ => if s = symbol then side.signed quantity else 0
  | .reduceOnly s side quantity => if s = symbol then side.signed quantity else 0
  | _ => 0

/-- The symbol of an accepted order. -/
def ExchangeRequest.symbol : ExchangeRequest → Option String
  | .newOrder s .. | .reduceOnly s .. => some s
  | _ => none

/-- `pa`: the sum of the signed sizes of all accepted orders. -/
def positionAmount (placed : List ExchangeRequest) (symbol : String) : ℚ :=
  (placed.map (ExchangeRequest.signed symbol)).sum

theorem positionAmount_append (placed : List ExchangeRequest) (r : ExchangeRequest)
    (symbol : String) :
    positionAmount (placed ++ [r]) symbol = positionAmount placed symbol + r.signed symbol := by
  simp [positionAmount]

structure OneWay where
  world : World
  /-- The `ACCOUNT_UPDATE`s that the exchange has sent: a symbol and its amount. -/
  sent : List (String × ℚ)

inductive OneWayAction where
  | createOrder (payload : OrderCreate) (as : List Answer)
  | closePosition (userId : ℤ) (symbol : String) (as : List Answer)
  | update (symbol : String) (amount : ℚ) (as : List Answer)

namespace OneWay

/-- After each order that it accepted, the exchange sends the amount. -/
def fill (s : OneWay) (w : World) : OneWay where
  world := w
  sent := s.sent ++ (w.placed.drop s.world.placed.length).filterMap fun r =>
    r.symbol.map fun symbol => (symbol, positionAmount w.placed symbol)

/-- A call that succeeds. -/
def call (cfg : Config) (c : Column) (s : OneWay) (r : Request) (as : List Answer) :
    Option OneWay :=
  match handle cfg c r as s.world with
  | some (w, .ok _) => some (s.fill w)
  | _ => none

/-- The handler of an event, up to the end of its database work. -/
def process (cfg : Config) (c : Column) (e : StreamEvent) (as : List Answer) (w : World) :
    Option World :=
  e.liquidates.foldlM (fun w symbol =>
    (handle cfg c (.applyLiquidation symbol) as w).map Prod.fst) w

def next (cfg : Config) (c : Column) (s : OneWay) : OneWayAction → Option OneWay
  | .createOrder payload as => s.call cfg c (.createOrder payload) as
  | .closePosition userId symbol as => s.call cfg c (.closePosition userId symbol) as
  | .update symbol amount as =>
    if (symbol, amount) ∈ s.sent then
      (process cfg c (.accountUpdate [⟨symbol, some amount⟩]) as s.world).map fun world =>
        { s with world }
    else none

end OneWay

/-- The quantity of all users in the symbol. -/
def liveAmount (db : Db) (symbol : String) : ℚ :=
  ((db.livePositionsIn symbol).map Position.quantity).sum

/-- The exchange's position amounts are what the ledger has. -/
def InStep (w : World) : Prop := ∀ symbol, positionAmount w.placed symbol = liveAmount w.db symbol

/-- Calls and updates, one after the other, from a ledger that is in step with the exchange. -/
abbrev oneWay (cfg : Config) (c : Column) : Sys where
  St := OneWay
  Act := OneWayAction
  init s := s.world.db.Valid c ∧ InStep s.world
  step s a s' := s.next cfg c a = some s'

/-- The order's size fits its column. An update with the amount 0 is processed while the amount is
still 0, and no two live positions in the symbol are opposite. -/
def SpeaksForAll (c : Column) (s : OneWay) : OneWayAction → Prop
  | .createOrder payload _ => c.Holds payload.size.value
  | .closePosition _ _ _ => True
  | .update symbol amount _ => amount = 0 → positionAmount s.world.placed symbol = 0 ∧
    ∀ p ∈ s.world.db.livePositionsIn symbol, ∀ q ∈ s.world.db.livePositionsIn symbol,
      0 ≤ p.quantity * q.quantity

instance (s : OneWay) (a : OneWayAction) : Decidable (SpeaksForAll c s a) := by
  unfold SpeaksForAll
  split <;> infer_instance

/-- What the step leaves of the live positions that are not 0: all, but for `closed`. -/
def KeepsOpen (closed : Position → Prop) (db db' : Db) : Prop :=
  ∀ p ∈ db.positions, p.liquidated = false → p.quantity ≠ 0 →
    ∀ p' ∈ db'.positions, p'.id = p.id → p'.liquidated = true → closed p

theorem KeepsOpen.refl {closed : Position → Prop} (hv : db.Valid c) : KeepsOpen closed db db := by
  intro p hp hlive _ p' hp' hid hended
  rw [hv.positions.keyed.eq_of_key hp' hp hid, hlive] at hended
  cases hended

/-! ## Live quantities -/

/-- What a position counts in the symbol. -/
def Position.amountIn (symbol : String) (p : Position) : ℚ :=
  if p.symbol = symbol ∧ p.liquidated = false then p.quantity else 0

theorem liveAmount_eq (db : Db) (symbol : String) :
    liveAmount db symbol = (db.positions.map (Position.amountIn symbol)).sum := by
  unfold liveAmount livePositionsIn
  rw [sum_filter]
  simp only [decide_eq_true_eq]
  rfl

namespace CreateOrder

variable {payload : OrderCreate} {A : Answer → Prop} {s : Placed cfg} {position : Option Position}
  {i t : ℕ}

/-- The order adds its signed size in its symbol. -/
theorem Committed.liveAmount (hv : db.Valid c) (h : Committed c db payload A s position i t db')
    (hsize : c.Holds s.orderSize) (symbol : String) :
    liveAmount db' symbol = CryptoExchange.liveAmount db symbol + s.request.signed symbol := by
  have hq := s.holds_signedQty hsize
  have hsigned : s.request.signed symbol =
      if s.payload.symbol = symbol then s.signedQty else 0 := rfl
  rw [liveAmount_eq, liveAmount_eq, h.eq hv, hsigned]
  show ((s.positions c position i db.positions).map _).sum = _
  cases position with
  | none =>
    rw [Placed.positions, List.map_append, List.sum_append]
    simp [Position.amountIn, storePosition, Placed.position, hq.store]
  | some p =>
    obtain ⟨hp, -, hs, hl⟩ := h.mem
    have hadd : c.store (p.quantity + s.signedQty) = p.quantity + s.signedQty :=
      ((hv.positions.rows p hp).1.add hq).store
    rw [Placed.positions, sum_modify _ hv.positions.keyed hp rfl]
    simp only [Position.amountIn, storePosition, Placed.added, hl, hadd, hs, and_true]
    split <;> ring

theorem Committed.keepsOpen (hv : db.Valid c) (h : Committed c db payload A s position i t db') :
    KeepsOpen (fun _ => False) db db' := by
  intro p hp hlive _ p' hp' hid hended
  rw [h.eq hv] at hp'
  have hp' : p' ∈ s.positions c position i db.positions := hp'
  cases position with
  | none =>
    rcases List.mem_append.mp hp' with hp' | hp'
    · rw [hv.positions.keyed.eq_of_key hp' hp hid, hlive] at hended
      cases hended
    · rw [List.mem_singleton.mp hp'] at hended
      cases hended
  | some q =>
    obtain ⟨hq, -, -, hl⟩ := h.mem
    obtain ⟨x, hx, rfl⟩ := mem_modify.mp hp'
    split at hended
    · have : q.liquidated = true := hended
      rw [hl] at this
      cases this
    · rename_i hne
      rw [if_neg hne] at hid
      rw [hv.positions.keyed.eq_of_key hx hp hid, hlive] at hended
      cases hended

end CreateOrder

namespace ClosePosition

variable {userId : ℤ} {symbol : String} {s : Loaded} {closePrice : PyFloat}
  {account : Option Account} {o t : ℕ}

/-- The closing order takes the position's quantity away. -/
theorem Committed.liveAmount (hv : db.Valid c)
    (h : Committed c db userId symbol s closePrice account o t db') (sym : String) :
    liveAmount db' sym = CryptoExchange.liveAmount db sym + s.request.signed sym := by
  obtain ⟨hp, -, hs, hl⟩ := h.mem
  have hsigned : s.request.signed sym = if symbol = sym then -s.position.quantity else 0 := by
    rw [← s.signed_quantity, ← h.symbol_eq]
    rfl
  rw [liveAmount_eq, liveAmount_eq, h.eq hv, hsigned]
  show ((modify Position.id s.position.id _ db.positions).map _).sum = _
  rw [sum_modify _ hv.positions.keyed hp rfl]
  simp only [Position.amountIn, storePosition, hl, hs, and_true]
  split <;> simp [sub_eq_add_neg]

theorem Committed.keepsOpen (hv : db.Valid c)
    (h : Committed c db userId symbol s closePrice account o t db') :
    KeepsOpen (fun p => p.userId = userId ∧ p.symbol = symbol) db db' := by
  intro p hp hlive _ p' hp' hid hended
  obtain ⟨hq, hu, hs, -⟩ := h.mem
  rw [h.eq hv] at hp'
  obtain ⟨x, hx, rfl⟩ := mem_modify.mp hp'
  split at hended
  · rename_i heq
    have hxp : x = p := by
      refine hv.positions.keyed.eq_of_key hx hp ?_
      rw [if_pos heq] at hid
      exact heq.trans hid
    rw [← hxp, hv.positions.keyed.eq_of_key hx hq heq]
    exact ⟨hu, hs⟩
  · rename_i hne
    rw [if_neg hne] at hid
    rw [hv.positions.keyed.eq_of_key hx hp hid, hlive] at hended
    cases hended

end ClosePosition

/-! ## Updates -/

/-- With nothing but zeros in the symbol, `_apply_liquidation` changes no live quantity. -/
theorem liquidated_of_zero {symbol : String} (hv : db.Valid c)
    (hzero : ∀ p ∈ db.livePositionsIn symbol, p.quantity = 0) :
    (∀ sym, liveAmount (ApplyLiquidation.liquidated c db symbol) sym = liveAmount db sym) ∧
      KeepsOpen (fun _ => False) db (ApplyLiquidation.liquidated c db symbol) := by
  constructor
  · intro sym
    rw [liveAmount_eq, liveAmount_eq]
    show ((db.positions.map _).map _).sum = _
    rw [List.map_map]
    refine congrArg List.sum (List.map_congr_left fun p hp => ?_)
    simp only [Function.comp]
    split
    · rename_i hs
      simp [Position.amountIn, hzero p (mem_livePositionsIn.mpr ⟨hp, hs⟩)]
    · rfl
  · intro p hp hlive hne p' hp' hid hended
    obtain ⟨x, hx, rfl⟩ := List.mem_map.mp hp'
    split at hended
    · rename_i hs
      rw [if_pos hs] at hid
      rw [hv.positions.keyed.eq_of_key hx hp hid] at hs
      exact hne (hzero p (mem_livePositionsIn.mpr ⟨hp, hs⟩))
    · rename_i hs
      rw [if_neg hs] at hid
      rw [hv.positions.keyed.eq_of_key hx hp hid, hlive] at hended
      cases hended

/-- The live quantities in a symbol that is in step, at 0 and one-sided are all 0. -/
theorem InStep.zero {w : World} (h : InStep w) {symbol : String}
    (hzero : positionAmount w.placed symbol = 0)
    (hsign : ∀ p ∈ w.db.livePositionsIn symbol, ∀ q ∈ w.db.livePositionsIn symbol,
      0 ≤ p.quantity * q.quantity) : ∀ p ∈ w.db.livePositionsIn symbol, p.quantity = 0 := by
  intro p hp
  refine eq_zero_of_sum_eq_zero ((h symbol).symm.trans hzero) (fun x hx y hy => ?_)
    (List.mem_map_of_mem hp)
  obtain ⟨p, hp, rfl⟩ := List.mem_map.mp hx
  obtain ⟨q, hq, rfl⟩ := List.mem_map.mp hy
  exact hsign p hp q hq

namespace OneWay

variable {s s' : OneWay}

theorem call_eq {r : Request} {as : List Answer} (h : s.call cfg c r as = some s') :
    ∃ x, handle cfg c r as s.world = some (s'.world, .ok x) := by
  unfold call at h
  split at h
  · rename_i w x hw
    cases h
    exact ⟨x, hw⟩
  · cases h

/-- What a step may end. -/
def Closes (cfg : Config) : OneWayAction → Position → Prop
  | .closePosition userId symbol _, p => p.userId = userId ∧ p.symbol = cfg.upper symbol
  | _, _ => False

/-- What processing an update does. -/
theorem process_eq {symbol : String} {amount : ℚ} {as : List Answer} {w w' : World}
    (hv : w.db.Valid c)
    (h : process cfg c (.accountUpdate [⟨symbol, some amount⟩]) as w = some w') :
    w' = w ∨ amount = 0 ∧ w'.db.Valid c ∧ w'.placed = w.placed ∧
      (w'.db = w.db ∨ w'.db = ApplyLiquidation.liquidated c w.db symbol) := by
  by_cases hzero : amount = 0
  · subst hzero
    simp only [process, StreamEvent.liquidates, List.filter_cons, Option.getD_some, decide_true,
      if_pos, List.filter_nil, List.map_cons, List.map_nil, List.foldlM_cons, List.foldlM_nil,
      bind_pure] at h
    obtain ⟨⟨w₁, r⟩, hw, rfl⟩ := Option.map_eq_some_iff.mp h
    have he := handle_effect (A := fun _ => True) (fun _ _ => trivial) hw
    refine .inr ⟨rfl, he.valid hv, ?_, ?_⟩
    · obtain ⟨r', hr, -⟩ := run_lift (ApplyLiquidation.step cfg c) .applyLiquidation
        (fun _ => .liquidated) (fun _ _ _ => rfl) hw
      refine run_induct (C := fun _ => True) (I := fun v _ => v.placed = w.placed)
        (Q := fun v _ => v.placed = w.placed) ?_ ?_ (fun _ _ => trivial) rfl hr
      · rintro v a p v' p' - hI hs
        exact (ApplyLiquidation.step_placed hs).trans hI
      · rintro v a p v' r - hI hs
        exact (ApplyLiquidation.step_placed hs).trans hI
    · generalize w₁.db = db' at he
      cases he with
      | same => exact .inl rfl
      | applyLiquidation hc => exact .inr (hc.eq hv)
  · left
    simp only [process, StreamEvent.liquidates, List.filter_cons, Option.getD_some, hzero,
      decide_false, Bool.false_eq_true, if_false, List.filter_nil, List.map_nil,
      List.foldlM_nil] at h
    exact (Option.some.inj h).symm

/-- **One step.** -/
theorem next_keeps {a : OneWayAction} (hv : s.world.db.Valid c) (hI : InStep s.world)
    (ha : SpeaksForAll c s a) (h : s.next cfg c a = some s') :
    s'.world.db.Valid c ∧ InStep s'.world ∧
      KeepsOpen (Closes cfg a) s.world.db s'.world.db := by
  cases a with
  | createOrder payload as =>
    obtain ⟨x, hw⟩ := call_eq h
    obtain ⟨r, hr, e⟩ := run_lift (CreateOrder.step cfg c) .createOrder .order (fun _ _ _ => rfl) hw
    cases r with
    | error f => cases e
    | ok r =>
      obtain ⟨o, position, i, t, hc, hplaced⟩ := CreateOrder.run_ok hr
      have hsize : c.Holds o.orderSize := by
        rw [CreateOrder.Loaded.orderSize, hc.payload_eq]
        exact ha
      refine ⟨hv.flush hc.flush, fun symbol => ?_, hc.keepsOpen hv⟩
      rw [hplaced, positionAmount_append, hc.liveAmount hv hsize, hI symbol]
  | closePosition userId symbol as =>
    obtain ⟨x, hw⟩ := call_eq h
    obtain ⟨r, hr, e⟩ :=
      run_lift (ClosePosition.step cfg c) .closePosition .closed (fun _ _ _ => rfl) hw
    cases r with
    | error f => cases e
    | ok r =>
      obtain ⟨o, closePrice, account, i, t, hc, hplaced⟩ := ClosePosition.run_ok hr
      refine ⟨hv.flush hc.flush, fun sym => ?_, hc.keepsOpen hv⟩
      rw [hplaced, positionAmount_append, hc.liveAmount hv, hI sym]
  | update symbol amount as =>
    simp only [next] at h
    split at h
    · obtain ⟨w, hw, rfl⟩ := Option.map_eq_some_iff.mp h
      rcases process_eq hv hw with rfl | ⟨rfl, hv', hplaced, hdb | hdb⟩
      · exact ⟨hv, hI, .refl hv⟩
      · refine ⟨hv', fun sym => ?_, ?_⟩
        · rw [hplaced, hdb, hI sym]
        · rw [hdb]
          exact .refl hv
      · obtain ⟨hamount, hsign⟩ := ha rfl
        obtain ⟨hsum, hopen⟩ := liquidated_of_zero hv (hI.zero hamount hsign)
        refine ⟨hv', fun sym => ?_, ?_⟩
        · rw [hplaced, hdb, hsum sym, hI sym]
        · rw [hdb]
          exact hopen
    · cases h

end OneWay

namespace Sample

def twoTraders : OneWay where
  world := twoUsers 1000
  sent := []

theorem twoTraders_init {c : Column} (h : c.Holds 1000) : (oneWay config c).init twoTraders :=
  ⟨twoUsers_valid h, fun _ => rfl⟩

/-- An order of the user for 1 BTC, with the row ids `n`. -/
def trade (userId : ℤ) (side : Side) (n : ℕ) : OneWayAction :=
  .createOrder { order "BTCUSDT" side 1 0 with userId } (accepted (dec 1 2) n)

def close (userId : ℤ) (n : ℕ) : OneWayAction :=
  .closePosition userId "BTCUSDT"
    [{}, { price := some (dec 1 2) }, { exchange := .ok {} }, {}, { rowId := n }, { tradeId := n }]

/-- The update that tells of a closed position. -/
def atZero : OneWayAction := .update "BTCUSDT" 0 [{}, {}, {}, {}]

/-- A step that keeps to `SpeaksForAll`. -/
def speaking (c : Column) (s : OneWay) (a : OneWayAction) : Option OneWay :=
  if SpeaksForAll c s a then s.next config c a else none

theorem speaking_step {c : Column} {s s' : OneWay} {a : OneWayAction}
    (h : speaking c s a = some s') : ((oneWay config c).restrict (SpeaksForAll c)).step s a s' := by
  unfold speaking at h
  split at h
  · rename_i ha
    exact ⟨ha, h⟩
  · cases h

end Sample

end CryptoExchange
