import CryptoExchange.Ledger.Service

/-!
# Failed calls

`create_order` and `close_position` send their order to the exchange in the middle of the database
transaction. An error before the exchange's reply leaves both sides as they were; an error of a
later Redis or database call is too late: the exchange keeps the order, and nothing takes it back.

* `Phase.accepted`: what the exchange has accepted from the call when it is in a phase.
* `LateFailure`: the call that is awaited after the exchange's reply fails.
* `failed_call_clean`: a run is clean exactly when it has no late failure. `failed_call_dirty` is a
  run whose Redis call fails.
-/

namespace CryptoExchange

open Lib Db

variable {cfg : Config} {c : Column}

/-- The row that a user's order at the exchange has in the tables. -/
def Books (c : Column) (userId : ℤ) : ExchangeRequest → Order → Prop
  | .newOrder symbol side orderType quantity _, o =>
    o.userId = userId ∧ o.symbol = symbol ∧ o.side = side ∧ o.orderType = orderType ∧
      o.size = c.store quantity
  | .reduceOnly symbol side quantity, o =>
    o.userId = userId ∧ o.symbol = symbol ∧ o.side = side ∧ o.orderType = .market ∧
      o.size = c.store quantity
  | _, _ => False

/-- A call that fails changes neither side, and each order that the exchange accepted from the call
has a committed row of its own. -/
structure Clean {R : Type} (c : Column) (userId : ℤ) (w w' : World) (r : Except Failure R) :
    Prop where
  unchanged : ∀ e, r = .error e → w'.db = w.db ∧ w'.placed = w.placed
  recorded : ∃ accepted rows, w'.placed = w.placed ++ accepted ∧
    w'.db.orders = w.db.orders ++ rows ∧ List.Forall₂ (Books c userId) accepted rows

theorem Clean.same {R : Type} {userId : ℤ} {w w' : World} {r : Except Failure R}
    (hdb : w'.db = w.db) (hplaced : w'.placed = w.placed) : Clean c userId w w' r where
  unchanged _ _ := ⟨hdb, hplaced⟩
  recorded := ⟨[], [], by rw [hplaced, List.append_nil], by rw [hdb, List.append_nil], .nil⟩

theorem not_clean {R : Type} {userId : ℤ} {w w' : World} {e : Failure} {x : ExchangeRequest}
    (hplaced : w'.placed = w.placed ++ [x]) :
    ¬Clean c userId w w' (.error e : Except Failure R) := by
  intro h
  have := (h.unchanged e rfl).2
  rw [hplaced] at this
  simp at this

theorem World.commit_placed {w w' : World} {ws : List Write} (h : w.commit c ws = some w') :
    w'.placed = w.placed := by
  obtain ⟨db, -, rfl⟩ := Option.map_eq_some_iff.mp h
  rfl

/-- Whether a result is an error. -/
instance {α : Type} (x : Except Failure α) : Decidable (∃ e, x = .error e) :=
  match x with
  | .error e => isTrue ⟨e, rfl⟩
  | .ok _ => isFalse (by simp)

/-! ## `create_order` -/

namespace CreateOrder

/-- What the exchange has accepted from the call. -/
def Phase.accepted : Phase cfg → List ExchangeRequest
  | .flushOrder s _ => [s.request]
  | .redisSet s _ | .selectPosition s | .commit s _ | .refresh s => [s.request]
  | _ => []

/-- The awaited call fails, and the exchange has accepted the order. -/
def LateFailure (c : Column) (w : World) (a : Answer) : Phase cfg → Prop
  | .flushOrder s reply =>
    a.fails ∨ w.db.flush c (s.opened.writes ++
      [.insertOrder ({ s with orderId := a.rowId, reply } : Placed cfg).order]) = none
  | .redisSet _ _ => a.fails
  | .selectPosition s =>
    a.fails ∨ ∃ e, scalarOneOrNone (w.db.livePositionsOf s.payload.userId s.payload.symbol) =
      .error e
  | .commit s position => a.fails ∨ w.commit c (s.writes position a.rowId a.tradeId) = none
  | .refresh s => a.fails ∨ findRow Order.id s.orderId w.db.orders = none
  | _ => False

instance (w : World) (a : Answer) (p : Phase cfg) : Decidable (LateFailure c w a p) := by
  unfold LateFailure
  split <;> infer_instance

/-- No step of the call is a late failure. -/
def NoLateFailure (cfg : Config) (c : Column) (as : List Answer) (w : World) (p : Phase cfg) :
    Prop :=
  ∀ x ∈ steps (step cfg c) as w p, ¬LateFailure c x.1 x.2.1 x.2.2

instance (as : List Answer) (w : World) (p : Phase cfg) :
    Decidable (NoLateFailure cfg c as w p) := by
  unfold NoLateFailure
  infer_instance

variable {w w' : World} {a : Answer} {p p' : Phase cfg} {r : Except Failure Reply}

theorem LateFailure.accepted (h : LateFailure c w a p) : p.accepted ≠ [] := by
  cases p with
  | flushOrder | redisSet | selectPosition | commit | refresh => simp [Phase.accepted]
  | _ => exact h.elim

/-- A late failure ends the call with an error. -/
theorem LateFailure.error (h : LateFailure c w a p) :
    ∃ e, step cfg c w a p = (w, .done (.error e)) := by
  cases p with
  | flushOrder s reply => exact ⟨_, if_pos h⟩
  | redisSet s x => exact ⟨_, if_pos h⟩
  | selectPosition s =>
    by_cases hf : a.fails
    · exact ⟨_, if_pos hf⟩
    · obtain ⟨e, he⟩ := h.resolve_left hf
      exact ⟨e, by simp only [step, he]; exact if_neg hf⟩
  | commit s position =>
    refine ⟨.database, ?_⟩
    by_cases hf : a.fails
    · exact if_pos hf
    · simp only [step, h.resolve_left hf]
      exact if_neg hf
  | refresh s =>
    refine ⟨.database, ?_⟩
    simp only [step]
    split
    · rename_i ho
      exact if_pos (h.resolve_right (by simp [ho]))
    · rfl
  | _ => exact h.elim

/-- Without a late failure, a call whose order the exchange accepted ends as it should. -/
theorem late_done (hp : p.accepted ≠ []) (hl : ¬LateFailure c w a p)
    (h : step cfg c w a p = (w', .done r)) :
    ∃ s o, p = .refresh s ∧ r = .ok (s.result o) := by
  cases p with
  | flushOrder s reply =>
    have hf : ¬(a.fails ∨ _) := hl
    simp only [step, if_neg hf] at h
    split at h <;> cases h
  | redisSet s x =>
    have hf : ¬a.fails := hl
    rw [step, if_neg hf] at h
    cases h
  | selectPosition s =>
    obtain ⟨hf, hs⟩ := not_or.mp hl
    rw [step, if_neg hf] at h
    split at h
    · rename_i e he
      exact absurd ⟨e, he⟩ hs
    · cases h
  | commit s position =>
    obtain ⟨hf, hs⟩ := not_or.mp hl
    rw [step, if_neg hf] at h
    split at h
    · contradiction
    · cases h
  | refresh s =>
    obtain ⟨hf, hs⟩ := not_or.mp hl
    simp only [step] at h
    split at h
    · rw [if_neg hf] at h
      cases h
      exact ⟨s, _, rfl, rfl⟩
    · contradiction
  | _ => exact absurd rfl hp

/-- The exchange accepts an order in the step to `flushOrder`, and in no other. -/
theorem placed_await {placed : List ExchangeRequest} (hI : w.placed = placed ++ p.accepted)
    (h : step cfg c w a p = (w', .await p')) : w'.placed = placed ++ p'.accepted := by
  cases step_cases h with
  | accepted hr =>
    have hI : w.placed = placed := by rw [hI]; exact List.append_nil _
    show w.placed ++ _ = _
    rw [hI]
    rfl
  | committed hc =>
    rw [World.commit_placed hc]
    exact hI
  | _ => exact hI

/-- Where a call ends: what it has read, what the exchange has accepted from it, and whether it had a
late failure. -/
theorem run_end {A : Answer → Prop} {payload : OrderCreate} {as : List Answer}
    (hA : ∀ a ∈ as, A a) (h : run (step cfg c) as w (.selectUser payload) = some (w', r)) :
    ∃ (w₁ : World) (a : Answer) (p : Phase cfg), Alone c w.db payload A w₁ p ∧
      w₁.placed = w.placed ++ p.accepted ∧ step cfg c w₁ a p = (w', .done r) ∧
      (NoLateFailure cfg c as w (.selectUser payload) ↔ ¬LateFailure c w₁ a p) := by
  let I (v : World) (p : Phase cfg) : Prop :=
    Alone c w.db payload A v p ∧ v.placed = w.placed ++ p.accepted
  obtain ⟨w₁, a, p, -, ⟨halone, hplaced⟩, hstep, hlate⟩ :=
    run_last (I := I) (B := LateFailure c)
      (fun _ _ _ _ _ hA hI hs => ⟨alone_await hA hI.1 hs, placed_await hI.2 hs⟩)
      (fun v b q v' q' hs hl => by
        obtain ⟨e, he⟩ := hl.error
        rw [hs] at he
        cases he)
      hA (show I w (.selectUser payload) from ⟨⟨rfl, rfl⟩, (List.append_nil _).symm⟩) h
  exact ⟨w₁, a, p, halone, hplaced, hstep, hlate⟩

/-- A call that succeeds commits, and the exchange has accepted its order. -/
theorem run_ok {payload : OrderCreate} {as : List Answer} {x : Reply}
    (h : run (step cfg c) as w (.selectUser payload) = some (w', .ok x)) :
    ∃ (s : Placed cfg) (position : Option Position) (i t : ℕ),
      Committed c w.db payload (· ∈ as) s position i t w'.db ∧
      w'.placed = w.placed ++ [s.request] := by
  obtain ⟨w₁, a, p, halone, hplaced, hstep, -⟩ := run_end (fun _ ha => ha) h
  obtain ⟨hdb, -, hsame⟩ := step_done hstep
  cases step_cases hstep with
  | @refreshed s o ho =>
    obtain ⟨position, i, t, hc⟩ := halone
    exact ⟨s, position, i, t, hc, hplaced⟩

/-- `create_order` has no late failure exactly when it is clean. -/
theorem clean_iff {payload : OrderCreate} {as : List Answer} (hv : w.db.Valid c)
    (h : run (step cfg c) as w (.selectUser payload) = some (w', r)) :
    Clean c payload.userId w w' r ↔
      NoLateFailure cfg c as w (.selectUser payload) := by
  obtain ⟨w₁, a, p, halone, hplaced, hstep, hlate⟩ :=
    run_end (A := fun _ => True) (fun _ _ => trivial) h
  obtain ⟨hdb, -, hsame⟩ := step_done hstep
  rw [hlate]
  by_cases hp : p.accepted = []
  · -- the exchange has accepted nothing, and the tables are still what they were
    refine iff_of_true (.same ?_ ?_) fun hl => hl.accepted hp
    · cases p with
      | refresh s => cases hp
      | _ => exact hdb.trans halone.1
    · rw [hsame, hplaced, hp, List.append_nil]
  by_cases hl : LateFailure c w₁ a p
  · obtain ⟨e, he⟩ := hl.error
    rw [hstep] at he
    cases he
    refine iff_of_false ?_ (not_not_intro hl)
    cases p with
    | flushOrder s reply | redisSet s x | selectPosition s | commit s position | refresh s =>
      exact not_clean hplaced
    | _ => exact absurd rfl hp
  · obtain ⟨s, o, rfl, rfl⟩ := late_done hp hl hstep
    obtain ⟨position, i, t, hc⟩ := halone
    refine iff_of_true ⟨fun e he => (by cases he),
      ⟨[s.request], [storeOrder c s.order], ?_, ?_, ?_⟩⟩ hl
    · rw [hsame, hplaced]
      rfl
    · rw [hdb, hc.eq hv]
      rfl
    · refine .cons ⟨?_, rfl, rfl, rfl, rfl⟩ .nil
      show s.payload.userId = _
      rw [hc.payload_eq]

end CreateOrder

/-! ## `close_position` -/

namespace ClosePosition

/-- The order that closes the position. -/
def Loaded.request (s : Loaded) : ExchangeRequest :=
  .reduceOnly s.symbol s.closeSide s.quantity

/-- What the exchange has accepted from the call. -/
def Phase.accepted : Phase → List ExchangeRequest
  | .selectAccount s _ | .flushOrder s _ _ | .commit s _ _ _ => [s.request]
  | _ => []

/-- The awaited call fails, and the exchange has accepted the order. -/
def LateFailure (c : Column) (w : World) (a : Answer) : Phase → Prop
  | .selectAccount s _ =>
    a.fails ∨ ∃ e, scalarOneOrNone (w.db.selectAccount s.position.accountId) = .error e
  | .flushOrder s closePrice account =>
    a.fails ∨
      w.db.flush c (s.closing account ++ [.insertOrder (s.order a.rowId closePrice)]) = none
  | .commit s closePrice account orderId =>
    a.fails ∨ w.commit c (s.writes closePrice account orderId a.tradeId) = none
  | _ => False

instance (w : World) (a : Answer) (p : Phase) : Decidable (LateFailure c w a p) := by
  unfold LateFailure
  split <;> infer_instance

/-- No step of the call is a late failure. -/
def NoLateFailure (cfg : Config) (c : Column) (as : List Answer) (w : World) (p : Phase) : Prop :=
  ∀ x ∈ steps (step cfg c) as w p, ¬LateFailure c x.1 x.2.1 x.2.2

instance (as : List Answer) (w : World) (p : Phase) : Decidable (NoLateFailure cfg c as w p) := by
  unfold NoLateFailure
  infer_instance

variable {w w' : World} {a : Answer} {p p' : Phase} {r : Except Failure Reply}

theorem LateFailure.accepted (h : LateFailure c w a p) : p.accepted ≠ [] := by
  cases p with
  | selectAccount | flushOrder | commit => simp [Phase.accepted]
  | _ => exact h.elim

/-- A late failure ends the call with an error. -/
theorem LateFailure.error (h : LateFailure c w a p) :
    ∃ e, step cfg c w a p = (w, .done (.error e)) := by
  cases p with
  | selectAccount s closePrice =>
    by_cases hf : a.fails
    · exact ⟨_, if_pos hf⟩
    · obtain ⟨e, he⟩ := h.resolve_left hf
      exact ⟨e, by simp only [step, he]; exact if_neg hf⟩
  | flushOrder s closePrice account => exact ⟨_, if_pos h⟩
  | commit s closePrice account orderId =>
    refine ⟨.database, ?_⟩
    by_cases hf : a.fails
    · exact if_pos hf
    · simp only [step, h.resolve_left hf]
      exact if_neg hf
  | _ => exact h.elim

/-- Without a late failure, a call whose order the exchange accepted ends with its commit. -/
theorem late_done (hp : p.accepted ≠ []) (hl : ¬LateFailure c w a p)
    (h : step cfg c w a p = (w', .done r)) :
    ∃ s closePrice account orderId x, p = .commit s closePrice account orderId ∧ r = .ok x ∧
      w.commit c (s.writes closePrice account orderId a.tradeId) = some w' := by
  cases p with
  | selectAccount s closePrice =>
    obtain ⟨hf, hs⟩ := not_or.mp hl
    rw [step, if_neg hf] at h
    split at h
    · rename_i e he
      exact absurd ⟨e, he⟩ hs
    · cases h
  | flushOrder s closePrice account =>
    have hf : ¬(a.fails ∨ _) := hl
    rw [step, if_neg hf] at h
    cases h
  | commit s closePrice account orderId =>
    obtain ⟨hf, hs⟩ := not_or.mp hl
    rw [step, if_neg hf] at h
    split at h
    · contradiction
    · rename_i hc
      cases h
      exact ⟨s, closePrice, account, orderId, _, rfl, rfl, hc⟩
  | _ => exact absurd rfl hp

/-- A call that ends before the exchange accepted its order changes nothing. -/
theorem early_done (hp : p.accepted = []) (h : step cfg c w a p = (w', .done r)) : w' = w := by
  cases step_cases h with
  | failed => rfl
  | committed => cases hp

/-- The exchange accepts an order in the step to `selectAccount`, and in no other. -/
theorem placed_await {placed : List ExchangeRequest} (hI : w.placed = placed ++ p.accepted)
    (h : step cfg c w a p = (w', .await p')) : w'.placed = placed ++ p'.accepted := by
  cases step_cases h with
  | reduced hr =>
    have hI : w.placed = placed := by rw [hI]; exact List.append_nil _
    show w.placed ++ _ = _
    rw [hI]
    rfl
  | _ => exact hI

/-- Where a call ends. -/
theorem run_end {userId : ℤ} {symbol : String} {as : List Answer}
    (h : run (step cfg c) as w (.selectPosition userId symbol) = some (w', r)) :
    ∃ (w₁ : World) (a : Answer) (p : Phase), Alone cfg w.db userId symbol (fun _ => True) w₁ p ∧
      w₁.placed = w.placed ++ p.accepted ∧ step cfg c w₁ a p = (w', .done r) ∧
      (NoLateFailure cfg c as w (.selectPosition userId symbol) ↔ ¬LateFailure c w₁ a p) := by
  let I (v : World) (p : Phase) : Prop :=
    Alone cfg w.db userId symbol (fun _ => True) v p ∧ v.placed = w.placed ++ p.accepted
  obtain ⟨w₁, a, p, -, ⟨halone, hplaced⟩, hstep, hlate⟩ :=
    run_last (C := fun _ => True) (I := I) (B := LateFailure c)
      (fun _ _ _ _ _ _ hI hs => ⟨alone_await trivial hI.1 hs, placed_await hI.2 hs⟩)
      (fun v b q v' q' hs hl => by
        obtain ⟨e, he⟩ := hl.error
        rw [hs] at he
        cases he)
      (fun _ _ => trivial)
      (show I w (.selectPosition userId symbol) from
        ⟨⟨rfl, rfl, rfl⟩, (List.append_nil _).symm⟩) h
  exact ⟨w₁, a, p, halone, hplaced, hstep, hlate⟩

/-- A call that succeeds commits, and the exchange has accepted its order. -/
theorem run_ok {userId : ℤ} {symbol : String} {as : List Answer} {x : Reply}
    (h : run (step cfg c) as w (.selectPosition userId symbol) = some (w', .ok x)) :
    ∃ (s : Loaded) (closePrice : PyFloat) (account : Option Account) (o t : ℕ),
      Committed c w.db userId (cfg.upper symbol) s closePrice account o t w'.db ∧
      w'.placed = w.placed ++ [s.request] := by
  obtain ⟨w₁, a, p, halone, hplaced, hstep, -⟩ := run_end h
  cases step_cases hstep with
  | @committed s closePrice account orderId w' r hc =>
    obtain ⟨hw, ⟨hu, hs, hpos⟩, -, ha⟩ := halone
    exact ⟨s, closePrice, account, orderId, a.tradeId, ⟨hu, hs, hpos, ha, hw ▸ World.commit_db hc⟩,
      (World.commit_placed hc).trans hplaced⟩

/-- `close_position` has no late failure exactly when it is clean. -/
theorem clean_iff {userId : ℤ} {symbol : String} {as : List Answer} (hv : w.db.Valid c)
    (h : run (step cfg c) as w (.selectPosition userId symbol) = some (w', r)) :
    Clean c userId w w' r ↔
      NoLateFailure cfg c as w (.selectPosition userId symbol) := by
  obtain ⟨w₁, a, p, halone, hplaced, hstep, hlate⟩ := run_end h
  rw [hlate]
  by_cases hp : p.accepted = []
  · obtain rfl := early_done hp hstep
    refine iff_of_true (.same halone.db_eq ?_) fun hl => hl.accepted hp
    rw [hplaced, hp, List.append_nil]
  by_cases hl : LateFailure c w₁ a p
  · obtain ⟨e, he⟩ := hl.error
    rw [hstep] at he
    cases he
    refine iff_of_false ?_ (not_not_intro hl)
    cases p with
    | selectAccount s closePrice | flushOrder s closePrice account
    | commit s closePrice account orderId => exact not_clean hplaced
    | _ => exact absurd rfl hp
  · obtain ⟨s, closePrice, account, orderId, x, rfl, rfl, hc⟩ := late_done hp hl hstep
    obtain ⟨hw, ⟨hu, hs, hpos⟩, hclose, ha⟩ := halone
    have hcommit : Committed c w.db userId (cfg.upper symbol) s closePrice account orderId a.tradeId
        w'.db := ⟨hu, hs, hpos, ha, hw ▸ World.commit_db hc⟩
    refine iff_of_true ⟨fun e he => (by cases he),
      ⟨[s.request], [storeOrder c (s.order orderId closePrice)], ?_, ?_, ?_⟩⟩ hl
    · rw [World.commit_placed hc, hplaced]
      rfl
    · rw [hcommit.eq hv]
      rfl
    · exact .cons ⟨hu, rfl, rfl, rfl, rfl⟩ .nil

end ClosePosition

/-! ## Both -/

/-- **Failed calls.** A call of `create_order` or `close_position` is clean exactly when none of
its Redis and database calls fails after the exchange accepted the order. -/
theorem failed_call_clean {w w' : World} {as : List Answer} (hv : w.db.Valid c) :
    (∀ payload r, run (CreateOrder.step cfg c) as w (.selectUser payload) = some (w', r) →
      (Clean c payload.userId w w' r ↔
        CreateOrder.NoLateFailure cfg c as w (.selectUser payload))) ∧
    (∀ userId symbol r,
      run (ClosePosition.step cfg c) as w (.selectPosition userId symbol) = some (w', r) →
      (Clean c userId w w' r ↔
        ClosePosition.NoLateFailure cfg c as w (.selectPosition userId symbol))) :=
  ⟨fun _ _ h => CreateOrder.clean_iff hv h, fun _ _ _ h => ClosePosition.clean_iff hv h⟩

/-! ## One order -/

namespace Sample

/-- The exchange accepts the order with an id. -/
def filledWithId : List Answer :=
  [{}, {}, { price := dec 1 2 }, {}, {},
    { exchange := .ok { orderId := some 7, status := "FILLED" } }, { rowId := 1 }, {}, {},
    { rowId := 1, tradeId := 1 }, {}]

/-- The same, and the Redis call fails. -/
def redisDown : List Answer := filledWithId.take 7 ++ [{ fails := true }]

/-- The position is closed. -/
def closeAnswers : List Answer :=
  [{}, { price := dec 1 2 }, { exchange := .ok {} }, {}, { rowId := 2 }, { tradeId := 2 }]

end Sample

open Sample in
/-- The order runs through, and the position is closed; both calls are clean. -/
theorem failed_call_clean_filled :
    ∃ w₁ w₂ r₁ r₂,
      run (CreateOrder.step config (.numeric 8)) filledWithId (start 1000)
        (.selectUser (order "BTCUSDT" .buy 1 0)) = some (w₁, .ok r₁) ∧
      Clean (.numeric 8) 1 (start 1000) w₁ (.ok r₁ : Except Failure CreateOrder.Reply) ∧
      run (ClosePosition.step config (.numeric 8)) closeAnswers w₁ (.selectPosition 1 "BTCUSDT") =
        some (w₂, .ok r₂) ∧
      Clean (.numeric 8) 1 w₁ w₂ (.ok r₂ : Except Failure ClosePosition.Reply) := by
  have hrun : ((run (CreateOrder.step config (.numeric 8)) filledWithId (start 1000)
      (.selectUser (order "BTCUSDT" .buy 1 0))).bind fun x =>
        (run (ClosePosition.step config (.numeric 8)) closeAnswers x.1
          (.selectPosition 1 "BTCUSDT")).map fun y =>
            (x.2.isOk, y.2.isOk, decide (ClosePosition.NoLateFailure config (.numeric 8)
              closeAnswers x.1 (.selectPosition 1 "BTCUSDT")))) = some (true, true, true) := by
    decide +kernel
  have hlate : CreateOrder.NoLateFailure config (.numeric 8) filledWithId (start 1000)
      (.selectUser (order "BTCUSDT" .buy 1 0)) := by decide +kernel
  have hv : (start 1000).db.Valid (.numeric 8) :=
    (seeded (by norm_num) (by decide +kernel)).valid
  obtain ⟨⟨w₁, _ | r₁⟩, h₁, h⟩ := Option.bind_eq_some_iff.mp hrun
  · obtain ⟨y, -, h⟩ := Option.map_eq_some_iff.mp h
    simp [Except.isOk, Except.toBool] at h
  obtain ⟨⟨w₂, _ | r₂⟩, h₂, h⟩ := Option.map_eq_some_iff.mp h
  · simp [Except.isOk, Except.toBool] at h
  simp only [Prod.mk.injEq, decide_eq_true_eq] at h
  have hv₁ : w₁.db.Valid (.numeric 8) := by
    rcases CreateOrder.run_alone (A := fun _ => True) (fun _ _ => trivial) h₁ with
      ⟨hdb, -⟩ | ⟨s, position, i, t, hc, -⟩
    · rw [hdb]
      exact hv
    · exact hv.flush hc.flush
  exact ⟨w₁, w₂, r₁, r₂, h₁, ((failed_call_clean hv).1 _ _ h₁).mpr hlate, h₂,
    ((failed_call_clean hv₁).2 _ _ _ h₂).mpr h.2.2⟩

open Sample in
/-- The exchange accepts an order for 1 BTC, and the Redis call fails: the call ends with an error,
the order stays at the exchange, and there is no row of it. -/
theorem failed_call_dirty :
    ∃ w' e, run (CreateOrder.step config .exact) redisDown (start 1000)
        (.selectUser (order "BTCUSDT" .buy 1 0)) = some (w', .error e) ∧
      w'.placed = [.newOrder "BTCUSDT" .buy .market 1 none] ∧ w'.db.orders = [] ∧
      ¬Clean .exact 1 (start 1000) w' (.error e : Except Failure CreateOrder.Reply) := by
  have hrun : (run (CreateOrder.step config .exact) redisDown (start 1000)
      (.selectUser (order "BTCUSDT" .buy 1 0))).map (fun x =>
        (x.2.isOk, x.1.placed, x.1.db.orders)) =
      some (false, [.newOrder "BTCUSDT" .buy .market 1 none], []) := by decide +kernel
  obtain ⟨⟨w', e | r⟩, h, hx⟩ := Option.map_eq_some_iff.mp hrun
  · simp only [Prod.mk.injEq] at hx
    obtain ⟨-, hplaced, horders⟩ := hx
    exact ⟨w', e, h, hplaced, horders, not_clean hplaced⟩
  · simp [Except.isOk, Except.toBool] at hx

end CryptoExchange
