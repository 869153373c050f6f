import CryptoExchange.Audit.Verify
import CryptoExchange.Ledger.Service

/-!
# A log through the storage format

`log_verifies`: which logs that nobody has changed verify. A float from `10 ^ 16` on is hashed in
exponent notation and read back as an integer. `create_order` emits such a float for the size of an
order that it rejects (`rejected_kept_iff`).
-/

namespace CryptoExchange

open Lib

/-- **A log verifies** when, and with a hash without collisions only when, every float in the
`event_data` of the rows that are checked is kept: it is smaller than `10 ^ 16` and no negative
zero. -/
theorem log_verifies (sha : List Char → String) {events : List Event} (hd : ∀ e ∈ events, e.data.Distinct)
    {s : AuditWorld × List (Next WritePhase Bool)} (h : (auditing sha events).Reach s)
    (limit : ℕ) :
    ((∀ r ∈ firstRows limit s.1.rows, r.Kept) →
      (verifyAuditChain sha limit s.1.rows).integrity = .ok) ∧
    (Function.Injective sha → (verifyAuditChain sha limit s.1.rows).integrity = .ok →
      ∀ r ∈ firstRows limit s.1.rows, r.Kept) := by
  have hw := ((auditing_ok sha events).reach h).1.written sha hd
  rw [verify_ok_iff]
  constructor
  · intro hk r hr x hx
    have hwr := hw r (mem_firstRows hr)
    rw [hwr.hashed] at hx
    cases hx
    exact (hash_readBack sha r hwr.distinct).1 (hk r hr)
  · intro hsha hv r hr
    have hwr := hw r (mem_firstRows hr)
    exact (hash_readBack sha r hwr.distinct).2 hsha (hv r hr _ hwr.hashed)

/-! ## The size of a rejected order -/

namespace CreateOrder.Loaded

variable (cfg : Config) (s : Loaded) (r : Rejection)

theorem rejected_distinct : (s.rejected cfg r).data.Distinct := by
  refine Json.distinct_obj.mpr ⟨by simp [Keyed, rejected], fun kv hkv => ?_⟩
  simp only [rejected, Option.getD_some, List.mem_cons, List.not_mem_nil, or_false] at hkv
  rcases hkv with rfl | rfl | rfl | rfl
  · trivial
  · trivial
  · cases s.payload.leverage <;> trivial
  · trivial

/-- The event is kept for sizes below `10 ^ 16` only. -/
theorem rejected_kept_iff (hfloat : cfg.float s.orderSize = s.payload.size) :
    (s.rejected cfg r).data.Kept ↔ s.payload.size.value < 10 ^ 16 := by
  have hpos := s.payload.size_pos
  have hdata : (s.rejected cfg r).data.Kept ↔ s.payload.size.Kept := by
    refine Json.kept_obj.trans ⟨fun h => ?_, fun h kv hkv => ?_⟩
    · have := h ("order_size", .float (cfg.float s.orderSize)) (by simp [rejected])
      rwa [hfloat] at this
    · simp only [rejected, Option.getD_some, List.mem_cons, List.not_mem_nil, or_false] at hkv
      rcases hkv with rfl | rfl | rfl | rfl
      · trivial
      · trivial
      · cases s.payload.leverage <;> trivial
      · rw [hfloat]
        exact h
  have hzero : ¬(s.payload.size.neg ∧ s.payload.size.digits = 0) := by
    rintro ⟨-, h0⟩
    simp [PyFloat.value, h0] at hpos
  rw [hdata, PyFloat.Kept, abs_of_pos hpos]
  exact and_iff_left hzero

end CreateOrder.Loaded

/-! ## Two rejected orders -/

namespace Sample

/-- What the task of an event writes when it is the only one. -/
def oneEntry (e : Event) : Entry where
  writer := 0
  row :=
    let now : DateTime := ⟨1970, 1, 1, 0, 0, 0, 0⟩
    e.row 1 now none (computeRowHash sha e.eventType e.actorId now e.eventData none)

/-- The log of one event. -/
theorem oneEvent_reach (e : Event) :
    (auditing sha [e]).Reach ({ entries := [oneEntry e], nextId := 2 }, [.done true]) := by
  have h : (auditing sha [e]).Reach ({}, [.await (.acquire 0 e)]) := .init ⟨rfl, rfl, rfl⟩
  exact h.run (.cons (a := (0, {})) ⟨_, rfl, rfl⟩ (.cons (a := (0, {})) ⟨_, rfl, rfl⟩
    (.cons (a := (0, {})) ⟨_, rfl, rfl⟩ (.cons (a := (0, {})) ⟨_, rfl, rfl⟩ (.nil _)))))

/-- The answers to the calls of a `create_order` that the risk check rejects. -/
def rejected : List Answer := [{}, {}, { price := dec 1 0 }, {}, {}]

/-- The events of the call. -/
def rejectedEvents (o : OrderCreate) : Option (List Event) :=
  (run (CreateOrder.step config (.numeric 8)) rejected (start 1) (.selectUser o)).map
    fun x => x.1.events

/-- One event, whose data is kept or not as `kept` says. -/
theorem rejectedEvents_one (o : OrderCreate) (kept : Bool)
    (h : (rejectedEvents o).map (fun es => es.map fun e =>
      (decide e.data.Kept, decide e.data.Distinct)) = some [(kept, true)]) :
    ∃ e, rejectedEvents o = some [e] ∧ decide e.data.Kept = kept ∧ e.data.Distinct := by
  obtain ⟨es, hes, h⟩ := Option.map_eq_some_iff.mp h
  obtain ⟨e, rfl, he⟩ := List.map_eq_singleton_iff.mp h
  obtain ⟨hk, hd⟩ := Prod.mk.inj he
  exact ⟨e, hes, hk, of_decide_eq_true hd⟩

end Sample

open Sample in
/-- The result for the rejection of an order for `1e+15` BTC. -/
theorem log_verifies_rejected :
    ∃ e, rejectedEvents (order "BTCUSDT" .buy 1 15) = some [e] ∧
      (verifyAuditChain sha 500 [(oneEntry e).row]).integrity = .ok := by
  obtain ⟨e, hes, hk, hd⟩ :=
    rejectedEvents_one (order "BTCUSDT" .buy 1 15) true (by decide +kernel)
  refine ⟨e, hes, (log_verifies sha ?_ (oneEvent_reach e) 500).1 fun r hr => ?_⟩
  · intro e' he'
    rw [List.mem_singleton.mp he']
    exact hd
  · have hr := mem_firstRows hr
    simp only [AuditWorld.rows, List.map_cons, List.map_nil, List.mem_singleton] at hr
    rw [hr]
    exact (of_decide_eq_true hk : e.data.Kept)

open Sample in
/-- An order for `1e+16` BTC is rejected, and the log of the rejection does not verify. -/
theorem log_not_verified :
    ∃ e s, rejectedEvents (order "BTCUSDT" .buy 1 16) = some [e] ∧
      (auditing sha [e]).Reach s ∧ s.2 = [.done true] ∧
      (verifyAuditChain sha 500 s.1.rows).integrity = .broken := by
  obtain ⟨e, hes, hk, hd⟩ :=
    rejectedEvents_one (order "BTCUSDT" .buy 1 16) false (by decide +kernel)
  refine ⟨e, _, hes, oneEvent_reach e, rfl, ?_⟩
  cases hv : (verifyAuditChain sha 500 [(oneEntry e).row]).integrity with
  | broken => exact hv
  | ok =>
    have hhash := (verify_ok_iff sha).mp hv (oneEntry e).row List.mem_cons_self _ rfl
    have hkept := (hash_readBack sha (oneEntry e).row hd).2 sha_injective hhash
    exact absurd hkept (of_decide_eq_false hk : ¬e.data.Kept)

end CryptoExchange
