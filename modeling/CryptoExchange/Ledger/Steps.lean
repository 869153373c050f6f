import CryptoExchange.Ledger.Orders
import CryptoExchange.Ledger.Stream

/-!
# What one step does

For each handler, `Steps` lists what a step can do: it fails and leaves the tables as they are, or
it goes on under the guards that it passed. `step_cases` reads a step of the code as one of these;
what holds of the steps is proved from it.
-/

namespace CryptoExchange

open Lib

variable {cfg : Config} {c : Column}

/-! ## `create_order` -/

namespace CreateOrder

/-- The steps of `create_order`. -/
inductive Steps (cfg : Config) (c : Column) (w : World) (a : Answer) :
    Phase cfg → World → After (Phase cfg) Reply → Prop
  | failed {p : Phase cfg} {w' : World} {e : Failure} (db_eq : w'.db = w.db) :
    Steps cfg c w a p w' (.done (.error e))
  | user {payload : OrderCreate} {user : User}
    (found : scalarOneOrNone (w.db.selectUser payload.userId) = .ok (some user)) :
    Steps cfg c w a (.selectUser payload) w (.await (.getAccount payload user .select))
  | account {payload : OrderCreate} {user : User} {p q : GetAccount}
    (step_eq : p.step c payload.userId w a = .await q) :
    Steps cfg c w a (.getAccount payload user p) w (.await (.getAccount payload user q))
  | opened {payload : OrderCreate} {user : User} {p : GetAccount} {o : OpenAccount}
    (step_eq : p.step c payload.userId w a = .done (.ok o)) :
    Steps cfg c w a (.getAccount payload user p) w (.await (.getPrice ⟨payload, user, o⟩))
  | priced {s : Loaded} {current : PyFloat} (price_eq : a.price = some current) :
    Steps cfg c w a (.getPrice s) w (.await (.userExposure s current))
  | userSummed {s : Loaded} {current : PyFloat} :
    Steps cfg c w a (.userExposure s current) w
      (.await (.globalExposure s current (w.db.userExposure s.payload.userId)))
  | approved {s : Checked cfg} (vol_eq : s.vol = a.vol)
    (global_eq : s.globalExposure = w.db.globalExposure) :
    Steps cfg c w a (.globalExposure s.toLoaded s.current s.userExposure) w (.await (.newOrder s))
  | accepted {s : Checked cfg} {reply : ExchangeOrder} (reply_eq : exchangeCall cfg a = .ok reply) :
    Steps cfg c w a (.newOrder s) (w.accept s.request) (.await (.flushOrder s reply))
  | flushed {s : Placed cfg} {x : ℤ}
    (flush : w.db.flush c (s.opened.writes ++ [.insertOrder s.order]) ≠ none)
    (id_eq : s.exchangeOrderId = some x) :
    Steps cfg c w a (.flushOrder s.toChecked s.reply) w (.await (.redisSet s x))
  | flushedOnly {s : Placed cfg}
    (flush : w.db.flush c (s.opened.writes ++ [.insertOrder s.order]) ≠ none)
    (id_eq : s.exchangeOrderId = none) :
    Steps cfg c w a (.flushOrder s.toChecked s.reply) w (.await (.selectPosition s))
  | cached {s : Placed cfg} {x : ℤ} :
    Steps cfg c w a (.redisSet s x) (w.setRedis s.orderId x) (.await (.selectPosition s))
  | positioned {s : Placed cfg} {position : Option Position}
    (found : scalarOneOrNone (w.db.livePositionsOf s.payload.userId s.payload.symbol) =
      .ok position) :
    Steps cfg c w a (.selectPosition s) w (.await (.commit s position))
  | committed {s : Placed cfg} {position : Option Position} {w' : World}
    (commit_eq : w.commit c (s.writes position a.rowId a.tradeId) = some w') :
    Steps cfg c w a (.commit s position) w' (.await (.refresh s))
  | refreshed {s : Placed cfg} {o : Order} (found : findRow Order.id s.orderId w.db.orders = some o) :
    Steps cfg c w a (.refresh s) (w.emit s.approvedEvent) (.done (.ok (s.result o)))

theorem check_cases {w w' : World} {a : Answer} {s : Loaded} {current : PyFloat} {u : ℚ}
    {n : After (Phase cfg) Reply} (h : check cfg a.vol w s current u w.db.globalExposure = (w', n)) :
    Steps cfg c w a (.globalExposure s current u) w' n := by
  unfold check at h
  split at h
  · cases h; exact .failed rfl
  · cases h; exact .failed rfl
  · cases h; exact .approved (s := Checked.mk ..) rfl rfl

theorem step_cases {w w' : World} {a : Answer} {p : Phase cfg} {n : After (Phase cfg) Reply}
    (h : step cfg c w a p = (w', n)) : Steps cfg c w a p w' n := by
  cases p with
  | selectUser payload =>
    simp only [step] at h
    split at h
    · cases h; exact .failed rfl
    split at h
    · cases h; exact .failed rfl
    · cases h; exact .failed rfl
    · rename_i hs
      cases h
      exact .user hs
  | getAccount payload user q =>
    simp only [step] at h
    split at h
    · rename_i hs
      cases h
      exact .account hs
    · cases h; exact .failed rfl
    · rename_i hs
      cases h
      exact .opened hs
  | getPrice s =>
    simp only [step] at h
    split at h
    · cases h; exact .failed rfl
    · rename_i hp
      cases h
      exact .priced hp
  | userExposure s current =>
    simp only [step] at h
    split at h
    · cases h; exact .failed rfl
    · cases h; exact .userSummed
  | globalExposure s current u =>
    simp only [step] at h
    split at h
    · cases h; exact .failed rfl
    · exact check_cases h
  | newOrder s =>
    simp only [step] at h
    split at h
    · cases h; exact .failed rfl
    · rename_i hr
      cases h
      exact .accepted hr
  | flushOrder s reply =>
    simp only [step] at h
    split at h
    · cases h; exact .failed rfl
    rename_i hf
    have hf := (not_or.mp hf).2
    split at h
    · rename_i hx
      cases h
      exact .flushed (s := Placed.mk ..) hf hx
    · rename_i hx
      cases h
      exact .flushedOnly (s := Placed.mk ..) hf hx
  | redisSet s x =>
    simp only [step] at h
    split at h
    · cases h; exact .failed rfl
    · cases h; exact .cached
  | selectPosition s =>
    simp only [step] at h
    split at h
    · cases h; exact .failed rfl
    split at h
    · cases h; exact .failed rfl
    · rename_i hp
      cases h
      exact .positioned hp
  | commit s position =>
    simp only [step] at h
    split at h
    · cases h; exact .failed rfl
    split at h
    · cases h; exact .failed rfl
    · rename_i hc
      cases h
      exact .committed hc
  | refresh s =>
    simp only [step] at h
    split at h
    · rename_i ho
      split at h
      · cases h; exact .failed rfl
      · cases h; exact .refreshed ho
    · cases h; exact .failed rfl

/-- A step that ends the call changes neither the tables, nor Redis, nor the exchange. -/
theorem step_done {w w' : World} {a : Answer} {p : Phase cfg} {r : Except Failure Reply}
    (h : step cfg c w a p = (w', .done r)) :
    w'.db = w.db ∧ w'.redis = w.redis ∧ w'.placed = w.placed := by
  cases p with
  | selectUser payload =>
    simp only [step] at h
    split at h
    · cases h; exact ⟨rfl, rfl, rfl⟩
    split at h <;> cases h <;> exact ⟨rfl, rfl, rfl⟩
  | getAccount payload user q =>
    simp only [step] at h
    split at h <;> cases h
    exact ⟨rfl, rfl, rfl⟩
  | getPrice s | newOrder s =>
    simp only [step] at h
    split at h <;> cases h
    exact ⟨rfl, rfl, rfl⟩
  | userExposure s current =>
    simp only [step] at h
    split at h <;> cases h
    exact ⟨rfl, rfl, rfl⟩
  | globalExposure s current u =>
    simp only [step] at h
    split at h
    · cases h; exact ⟨rfl, rfl, rfl⟩
    unfold check at h
    split at h <;> cases h <;> exact ⟨rfl, rfl, rfl⟩
  | flushOrder s reply =>
    simp only [step] at h
    split at h
    · cases h; exact ⟨rfl, rfl, rfl⟩
    split at h <;> cases h
  | redisSet s x =>
    simp only [step] at h
    split at h <;> cases h
    exact ⟨rfl, rfl, rfl⟩
  | selectPosition s =>
    simp only [step] at h
    split at h
    · cases h; exact ⟨rfl, rfl, rfl⟩
    split at h <;> cases h
    exact ⟨rfl, rfl, rfl⟩
  | commit s position =>
    simp only [step] at h
    split at h
    · cases h; exact ⟨rfl, rfl, rfl⟩
    split at h <;> cases h
    exact ⟨rfl, rfl, rfl⟩
  | refresh s =>
    simp only [step] at h
    split at h
    · split at h <;> cases h <;> exact ⟨rfl, rfl, rfl⟩
    · cases h; exact ⟨rfl, rfl, rfl⟩

end CreateOrder

/-! ## `close_position` -/

namespace ClosePosition

/-- The steps of `close_position`. -/
inductive Steps (cfg : Config) (c : Column) (w : World) (a : Answer) :
    Phase → World → After Phase Reply → Prop
  | failed {p : Phase} {e : Failure} : Steps cfg c w a p w (.done (.error e))
  | found {userId : ℤ} {symbol : String} {position : Position}
    (select_eq : scalarOneOrNone (w.db.livePositionsOf userId (cfg.upper symbol)) =
      .ok (some position)) :
    Steps cfg c w a (.selectPosition userId symbol) w
      (.await (.getPrice ⟨userId, cfg.upper symbol, position⟩))
  | priced {s : Loaded} {closePrice : PyFloat} (price_eq : a.price = some closePrice) :
    Steps cfg c w a (.getPrice s) w (.await (.reduceOnly s closePrice))
  | reduced {s : Loaded} {closePrice : PyFloat} {reply : ExchangeOrder}
    (reply_eq : exchangeCall cfg a = .ok reply) :
    Steps cfg c w a (.reduceOnly s closePrice)
      (w.accept (.reduceOnly s.symbol s.closeSide s.quantity)) (.await (.selectAccount s closePrice))
  | account {s : Loaded} {closePrice : PyFloat} {account : Option Account}
    (select_eq : scalarOneOrNone (w.db.selectAccount s.position.accountId) = .ok account) :
    Steps cfg c w a (.selectAccount s closePrice) w (.await (.flushOrder s closePrice account))
  | flushed {s : Loaded} {closePrice : PyFloat} {account : Option Account}
    (flush : w.db.flush c (s.closing account ++ [.insertOrder (s.order a.rowId closePrice)]) ≠
      none) :
    Steps cfg c w a (.flushOrder s closePrice account) w
      (.await (.commit s closePrice account a.rowId))
  | committed {s : Loaded} {closePrice : PyFloat} {account : Option Account} {orderId : ℕ}
    {w' : World} {r : Reply}
    (commit_eq : w.commit c (s.writes closePrice account orderId a.tradeId) = some w') :
    Steps cfg c w a (.commit s closePrice account orderId) w' (.done (.ok r))

theorem step_cases {w w' : World} {a : Answer} {p : Phase} {n : After Phase Reply}
    (h : step cfg c w a p = (w', n)) : Steps cfg c w a p w' n := by
  cases p with
  | selectPosition userId symbol =>
    simp only [step] at h
    split at h
    · cases h; exact .failed
    split at h
    · cases h; exact .failed
    · cases h; exact .failed
    · rename_i hs
      cases h
      exact .found hs
  | getPrice s =>
    simp only [step] at h
    split at h
    · cases h; exact .failed
    · rename_i hp
      cases h
      exact .priced hp
  | reduceOnly s closePrice =>
    simp only [step] at h
    split at h
    · cases h; exact .failed
    · rename_i hr
      cases h
      exact .reduced hr
  | selectAccount s closePrice =>
    simp only [step] at h
    split at h
    · cases h; exact .failed
    split at h
    · cases h; exact .failed
    · rename_i ha
      cases h
      exact .account ha
  | flushOrder s closePrice account =>
    simp only [step] at h
    split at h
    · cases h; exact .failed
    · rename_i hf
      cases h
      exact .flushed (not_or.mp hf).2
  | commit s closePrice account orderId =>
    simp only [step] at h
    split at h
    · cases h; exact .failed
    split at h
    · cases h; exact .failed
    · rename_i hc
      cases h
      exact .committed hc

end ClosePosition

/-! ## `cancel_order` -/

namespace CancelOrder

/-- The steps of `cancel_order`. -/
inductive Steps (cfg : Config) (c : Column) (w : World) (a : Answer) :
    Phase → World → After Phase Order → Prop
  | failed {p : Phase} {e : Failure} : Steps cfg c w a p w (.done (.error e))
  | found {orderId : ℕ} {userId : ℤ} {order : Order}
    (select_eq : scalarOneOrNone (w.db.orders.filter fun o => o.id = orderId ∧ o.userId = userId) =
      .ok (some order)) (status_ne : order.status ≠ "FILLED") :
    Steps cfg c w a (.selectOrder orderId userId) w (.await (.redisGet order))
  | uncached {order : Order} (redis_eq : w.redis order.id = none) :
    Steps cfg c w a (.redisGet order) w (.await (.commit order))
  | cached {order : Order} {x : ℤ} (redis_eq : w.redis order.id = some x) :
    Steps cfg c w a (.redisGet order) w (.await (.cancelOrder order x))
  | accepted {order : Order} {x : ℤ} {reply : ExchangeOrder}
    (reply_eq : exchangeCall cfg a = .ok reply) :
    Steps cfg c w a (.cancelOrder order x) (w.accept (.cancelOrder order.symbol x))
      (.await (.commit order))
  | committed {order : Order} {w' : World}
    (commit_eq : w.commit c (updateOrder order (canceled order)) = some w') :
    Steps cfg c w a (.commit order) w' (.await (.refresh order))
  | refreshed {order o : Order} (find_eq : findRow Order.id order.id w.db.orders = some o) :
    Steps cfg c w a (.refresh order) w (.done (.ok o))

theorem step_cases {w w' : World} {a : Answer} {p : Phase} {n : After Phase Order}
    (h : step cfg c w a p = (w', n)) : Steps cfg c w a p w' n := by
  cases p with
  | selectOrder orderId userId =>
    simp only [step] at h
    split at h
    · cases h; exact .failed
    split at h
    · cases h; exact .failed
    · cases h; exact .failed
    · rename_i hs
      split at h
      · cases h; exact .failed
      · rename_i hf
        cases h
        exact .found hs hf
  | redisGet order =>
    simp only [step] at h
    split at h
    · cases h; exact .failed
    split at h
    · rename_i hx
      cases h
      exact .uncached hx
    · rename_i hx
      cases h
      exact .cached hx
  | cancelOrder order x =>
    simp only [step] at h
    split at h
    · cases h; exact .failed
    · rename_i hr
      cases h
      exact .accepted hr
  | commit order =>
    simp only [step] at h
    split at h
    · cases h; exact .failed
    split at h
    · cases h; exact .failed
    · rename_i hc
      cases h
      exact .committed hc
  | refresh order =>
    simp only [step] at h
    split at h
    · rename_i ho
      split at h
      · cases h; exact .failed
      · cases h; exact .refreshed ho
    · cases h; exact .failed

end CancelOrder

/-! ## `_apply_liquidation` -/

namespace ApplyLiquidation

theorem foldl_emit (es : List Position) (f : Position → Event) (w : World) :
    es.foldl (fun w p => w.emit (f p)) w = { w with events := w.events ++ es.map f } := by
  induction es generalizing w with
  | nil => simp
  | cons e es ih =>
    rw [List.foldl_cons, ih]
    simp [World.emit]

/-- The steps of `_apply_liquidation`. -/
inductive Steps (c : Column) (w : World) : Phase → World → After Phase Unit → Prop
  | unchanged {p : Phase} {r : Except Failure Unit} : Steps c w p w (.done r)
  | found {symbol : String} {p : Position} {ps : List Position}
    (select_eq : w.db.livePositionsIn symbol = p :: ps) :
    Steps c w (.selectPositions symbol) w (.await (.selectAccount ⟨symbol, p :: ps, []⟩ p ps))
  | known {s : Loop} {p : Position} {todo : List Position}
    (loaded : ∃ l ∈ s.accounts, l.account.id = p.accountId) :
    Steps c w (.selectAccount s p todo) w (.await (s.turn p todo s.accounts))
  | missing {s : Loop} {p : Position} {todo : List Position}
    (unknown : ¬∃ l ∈ s.accounts, l.account.id = p.accountId)
    (select_eq : scalarOneOrNone (w.db.selectAccount p.accountId) = .ok none) :
    Steps c w (.selectAccount s p todo) w (.await (s.turn p todo s.accounts))
  | loaded {s : Loop} {p : Position} {todo : List Position} {a : Account}
    (unknown : ¬∃ l ∈ s.accounts, l.account.id = p.accountId)
    (select_eq : scalarOneOrNone (w.db.selectAccount p.accountId) = .ok (some a)) :
    Steps c w (.selectAccount s p todo) w
      (.await (s.turn p todo (s.accounts ++ [⟨a, a.marginUsed⟩])))
  | committed {s : Loop} {w₁ w' : World} (db_eq : w'.db = w₁.db)
    (commit_eq : w.commit c s.writes = some w₁) : Steps c w (.commit s) w' (.done (.ok ()))

theorem step_cases {w w' : World} {a : Answer} {p : Phase} {n : After Phase Unit}
    (h : step cfg c w a p = (w', n)) : Steps c w p w' n := by
  cases p with
  | selectPositions symbol =>
    simp only [step] at h
    split at h
    · cases h; exact .unchanged
    split at h
    · cases h; exact .unchanged
    split at h
    · cases h; exact .unchanged
    · rename_i hs
      cases h
      exact .found hs
  | selectAccount s p todo =>
    simp only [step] at h
    split at h
    · cases h; exact .unchanged
    split at h
    · rename_i hl
      cases h
      simp only [List.any_eq_true, decide_eq_true_eq] at hl
      exact .known hl
    · rename_i hl
      simp only [List.any_eq_true, decide_eq_true_eq] at hl
      split at h
      · cases h; exact .unchanged
      · rename_i ha
        cases h
        exact .missing hl ha
      · rename_i ha
        cases h
        exact .loaded hl ha
  | commit s =>
    simp only [step] at h
    split at h
    · cases h; exact .unchanged
    split at h
    · cases h; exact .unchanged
    · rename_i hc
      cases h
      exact .committed (by rw [foldl_emit]) hc

/-- The exchange is asked for nothing. -/
theorem step_placed {w w' : World} {a : Answer} {p : Phase} {n : After Phase Unit}
    (h : step cfg c w a p = (w', n)) : w'.placed = w.placed := by
  cases p with
  | selectPositions symbol =>
    simp only [step] at h
    split at h
    · cases h; rfl
    split at h
    · cases h; rfl
    split at h <;> cases h <;> rfl
  | selectAccount s p todo =>
    simp only [step] at h
    split at h
    · cases h; rfl
    split at h
    · cases h; rfl
    split at h <;> cases h <;> rfl
  | commit s =>
    simp only [step] at h
    split at h
    · cases h; rfl
    split at h
    · cases h; rfl
    · rename_i hc
      cases h
      obtain ⟨db, -, rfl⟩ := Option.map_eq_some_iff.mp hc
      rw [foldl_emit]

end ApplyLiquidation

end CryptoExchange
