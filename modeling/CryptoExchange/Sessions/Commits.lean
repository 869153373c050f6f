import CryptoExchange.Ledger.Service

/-!
# All handlers, interleaved

The six handlers of the ledger in one system, a step of any of them at a time.

* `sessions`: the system for a list of requests, from any valid tables.
* `Task.unitOfWork`: the unit of work that a handler sends in its phase. `step_db`: a step leaves the
  tables as they are, or commits it. Whatever concerns only the tables follows from what the units
  of work are.
* `World.Extends`: what the exchange accepted and what was emitted is never taken back
  (`step_extends`).
-/

namespace CryptoExchange

open Lib Db

variable {cfg : Config} {c : Column}

/-- The requests, each handled by a task of its own. -/
abbrev sessions (cfg : Config) (c : Column) (init : World → Prop) (requests : List Request) : Sys :=
  interleave (Task.step cfg c) fun w ts =>
    w.db.Valid c ∧ init w ∧ ts = requests.map fun r => .await (r.start cfg)

/-- The unit of work that the step sends, when the call is answered `a`. -/
def Task.unitOfWork (a : Answer) : Task cfg → List Write
  | .createOrder (.commit s position) => s.writes position a.rowId a.tradeId
  | .closePosition (.commit s closePrice account orderId) =>
    s.writes closePrice account orderId a.tradeId
  | .cancelOrder (.commit order) => updateOrder order (CancelOrder.canceled order)
  | .syncBalance (.commit o balance) => SyncBalance.writes o balance
  | .setMarginType (.commit r positions) => SetMarginType.writes cfg r positions
  | .applyLiquidation (.commit s) => s.writes
  | _ => []

/-! ## What a step appends -/

/-- Nothing is taken back of what the exchange accepted, and of the events. -/
structure World.Extends (w w' : World) : Prop where
  placed : w.placed <+: w'.placed
  events : w.events <+: w'.events

namespace World

variable {w w' w'' : World}

@[simp] theorem Extends.refl (w : World) : w.Extends w := ⟨List.prefix_rfl, List.prefix_rfl⟩

theorem Extends.trans (h : w.Extends w') (h' : w'.Extends w'') : w.Extends w'' :=
  ⟨h.placed.trans h'.placed, h.events.trans h'.events⟩

@[simp] theorem extends_accept (w : World) (r : ExchangeRequest) : w.Extends (w.accept r) :=
  ⟨List.prefix_append _ _, List.prefix_rfl⟩

@[simp] theorem extends_emit (w : World) (e : Event) : w.Extends (w.emit e) :=
  ⟨List.prefix_rfl, List.prefix_append _ _⟩

@[simp] theorem extends_setRedis (w : World) (id : ℕ) (x : ℤ) : w.Extends (w.setRedis id x) :=
  ⟨List.prefix_rfl, List.prefix_rfl⟩

theorem extends_commit {ws : List Write} (h : w.commit c ws = some w') : w.Extends w' := by
  obtain ⟨db, -, rfl⟩ := Option.map_eq_some_iff.mp h
  exact ⟨List.prefix_rfl, List.prefix_rfl⟩

end World

variable {w w' : World} {a : Answer}

theorem CreateOrder.step_extends {p : CreateOrder.Phase cfg}
    {n : After (CreateOrder.Phase cfg) CreateOrder.Reply}
    (h : CreateOrder.step cfg c w a p = (w', n)) : w.Extends w' := by
  cases p with
  | selectUser payload =>
    simp only [CreateOrder.step] at h
    split at h
    · cases h; exact .refl _
    split at h <;> cases h <;> exact .refl _
  | getAccount payload user q =>
    simp only [CreateOrder.step] at h
    split at h <;> cases h <;> exact .refl _
  | getPrice s =>
    simp only [CreateOrder.step] at h
    split at h <;> cases h <;> exact .refl _
  | userExposure s current =>
    simp only [CreateOrder.step] at h
    split at h <;> cases h <;> exact .refl _
  | globalExposure s current u =>
    simp only [CreateOrder.step] at h
    split at h
    · cases h; exact .refl _
    unfold CreateOrder.check at h
    split at h
    · cases h; exact .refl _
    · cases h; exact World.extends_emit _ _
    · cases h; exact .refl _
  | newOrder s =>
    simp only [CreateOrder.step] at h
    split at h
    · cases h; exact .refl _
    · cases h; exact World.extends_accept _ _
  | flushOrder s reply =>
    simp only [CreateOrder.step] at h
    split at h
    · cases h; exact .refl _
    split at h <;> cases h <;> exact .refl _
  | redisSet s x =>
    simp only [CreateOrder.step] at h
    split at h
    · cases h; exact .refl _
    · cases h; exact World.extends_setRedis _ _ _
  | selectPosition s =>
    simp only [CreateOrder.step] at h
    split at h
    · cases h; exact .refl _
    split at h <;> cases h <;> exact .refl _
  | commit s position =>
    simp only [CreateOrder.step] at h
    split at h
    · cases h; exact .refl _
    split at h
    · cases h; exact .refl _
    · rename_i hc
      cases h
      exact World.extends_commit hc
  | refresh s =>
    simp only [CreateOrder.step] at h
    split at h
    · split at h
      · cases h; exact .refl _
      · cases h; exact World.extends_emit _ _
    · cases h; exact .refl _

theorem ClosePosition.step_extends {p : ClosePosition.Phase}
    {n : After ClosePosition.Phase ClosePosition.Reply}
    (h : ClosePosition.step cfg c w a p = (w', n)) : w.Extends w' := by
  cases ClosePosition.step_cases h with
  | reduced => exact World.extends_accept _ _
  | committed hc => exact World.extends_commit hc
  | _ => exact .refl _

theorem CancelOrder.step_extends {p : CancelOrder.Phase} {n : After CancelOrder.Phase Order}
    (h : CancelOrder.step cfg c w a p = (w', n)) : w.Extends w' := by
  cases CancelOrder.step_cases h with
  | accepted => exact World.extends_accept _ _
  | committed hc => exact World.extends_commit hc
  | _ => exact .refl _

namespace SyncBalance

/-- The steps of `sync_balance_from_exchange`. -/
inductive Steps (cfg : Config) (c : Column) (w : World) (a : Answer) :
    Phase → World → After Phase Account → Prop
  | failed {userId : ℤ} {q : GetAccount} {e : Failure} (step_eq : q.step c userId w a = .done (.error e)) :
    Steps cfg c w a (.getAccount userId q) w (.done (.error e))
  | account {userId : ℤ} {q q' : GetAccount} (step_eq : q.step c userId w a = .await q') :
    Steps cfg c w a (.getAccount userId q) w (.await (.getAccount userId q'))
  | unconfigured {userId : ℤ} {q : GetAccount} {o : OpenAccount}
    (step_eq : q.step c userId w a = .done (.ok o)) :
    Steps cfg c w a (.getAccount userId q) w (.done (.ok o.account))
  | opened {userId : ℤ} {q : GetAccount} {o : OpenAccount}
    (step_eq : q.step c userId w a = .done (.ok o)) :
    Steps cfg c w a (.getAccount userId q) w (.await (.wallet o))
  | unread {o : OpenAccount} : Steps cfg c w a (.wallet o) w (.done (.ok o.account))
  | read {o : OpenAccount} {balance : ℚ} (wallet_eq : a.wallet = .ok (some balance)) :
    Steps cfg c w a (.wallet o) w (.await (.commit o balance))
  | unstored {o : OpenAccount} {balance : ℚ} :
    Steps cfg c w a (.commit o balance) w (.done (.ok { o.account with balance }))
  | committed {o : OpenAccount} {balance : ℚ} {w' : World}
    (commit_eq : w.commit c (writes o balance) = some w') :
    Steps cfg c w a (.commit o balance) w'
      (.await (.refresh { o with account := { o.account with balance } }))
  | refreshed {o : OpenAccount} {account : Account}
    (row : account = o.account ∨ findRow Account.id o.account.id w.db.accounts = some account) :
    Steps cfg c w a (.refresh o) w (.done (.ok account))

theorem step_cases {p : Phase} {n : After Phase Account} (h : step cfg c w a p = (w', n)) :
    Steps cfg c w a p w' n := by
  cases p with
  | getAccount userId q =>
    simp only [step] at h
    split at h
    · rename_i hq
      cases h
      exact .account hq
    · rename_i hq
      cases h
      exact .failed hq
    · rename_i hq
      cases h
      by_cases hc : cfg.hasCredentials
      · rw [if_pos hc]
        exact .opened hq
      · rw [if_neg hc]
        exact .unconfigured hq
  | wallet o =>
    simp only [step] at h
    split at h
    · rename_i hw
      cases h
      exact .read hw
    · cases h; exact .unread
  | commit o balance =>
    simp only [step] at h
    split at h
    · cases h; exact .unstored
    split at h
    · cases h; exact .unstored
    · rename_i hc
      cases h
      exact .committed hc
  | refresh o =>
    simp only [step] at h
    split at h
    · cases h; exact .refreshed (.inl rfl)
    · cases h
      refine .refreshed ?_
      cases findRow Account.id o.account.id w.db.accounts with
      | none => exact .inl rfl
      | some account => exact .inr rfl

theorem step_extends {p : Phase} {n : After Phase Account} (h : step cfg c w a p = (w', n)) :
    w.Extends w' := by
  cases step_cases h with
  | committed hc => exact World.extends_commit hc
  | _ => exact .refl _

end SyncBalance

namespace SetMarginType

/-- The steps of `set_margin_type`. -/
inductive Steps (cfg : Config) (c : Column) (w : World) (a : Answer) :
    Phase → World → After Phase String → Prop
  | failed {p : Phase} {e : Failure} : Steps cfg c w a p w (.done (.error e))
  | accepted {r : Request} {reply : ExchangeOrder} (credentials : cfg.hasCredentials)
    (reply_eq : a.exchange = .ok reply) :
    Steps cfg c w a (.changeMarginType r)
      (w.accept (.changeMarginType (cfg.upper r.symbol) r.marginType)) (.await (.selectPositions r))
  | selected {r : Request} :
    Steps cfg c w a (.selectPositions r) w
      (.await (.commit r (w.db.positions.filter fun p => p.userId = r.userId)))
  | committed {r : Request} {positions : List Position} {w' : World} {text : String}
    (commit_eq : w.commit c (writes cfg r positions) = some w') :
    Steps cfg c w a (.commit r positions) (w'.emit (changed cfg r)) (.done (.ok text))

theorem step_cases {p : Phase} {n : After Phase String} (h : step cfg c w a p = (w', n)) :
    Steps cfg c w a p w' n := by
  cases p with
  | changeMarginType r =>
    simp only [step] at h
    split at h
    · cases h; exact .failed
    rename_i hc
    split at h
    · cases h; exact .failed
    · rename_i hr
      cases h
      exact .accepted (not_not.mp hc) hr
  | selectPositions r =>
    simp only [step] at h
    split at h
    · cases h; exact .failed
    · cases h; exact .selected
  | commit r positions =>
    simp only [step] at h
    split at h
    · cases h; exact .failed
    split at h
    · cases h; exact .failed
    · rename_i hc
      cases h
      exact .committed hc

theorem step_extends {p : Phase} {n : After Phase String} (h : step cfg c w a p = (w', n)) :
    w.Extends w' := by
  cases step_cases h with
  | accepted => exact World.extends_accept _ _
  | committed hc => exact (World.extends_commit hc).trans (World.extends_emit _ _)
  | _ => exact .refl _

end SetMarginType

theorem ApplyLiquidation.step_events {p : ApplyLiquidation.Phase}
    {n : After ApplyLiquidation.Phase Unit} (h : ApplyLiquidation.step cfg c w a p = (w', n)) :
    w'.events = w.events ∨ ∃ s w₁, p = .commit s ∧ w.commit c s.writes = some w₁ ∧ w'.db = w₁.db ∧
      w'.events = w.events ++ s.positions.map (liquidatedEvent cfg s.symbol) := by
  cases p with
  | selectPositions symbol =>
    simp only [ApplyLiquidation.step] at h
    split at h
    · cases h; exact .inl rfl
    split at h
    · cases h; exact .inl rfl
    split at h <;> cases h <;> exact .inl rfl
  | selectAccount s p todo =>
    simp only [ApplyLiquidation.step] at h
    split at h
    · cases h; exact .inl rfl
    split at h
    · cases h; exact .inl rfl
    split at h <;> cases h <;> exact .inl rfl
  | commit s =>
    simp only [ApplyLiquidation.step] at h
    split at h
    · cases h; exact .inl rfl
    split at h
    · cases h; exact .inl rfl
    · rename_i w₁ hc
      cases h
      obtain ⟨db, -, rfl⟩ := Option.map_eq_some_iff.mp hc
      refine .inr ⟨s, _, rfl, hc, ?_, ?_⟩
      · rw [ApplyLiquidation.foldl_emit]
      · rw [ApplyLiquidation.foldl_emit]

theorem ApplyLiquidation.step_extends {p : ApplyLiquidation.Phase}
    {n : After ApplyLiquidation.Phase Unit} (h : ApplyLiquidation.step cfg c w a p = (w', n)) :
    w.Extends w' := by
  refine ⟨by rw [ApplyLiquidation.step_placed h], ?_⟩
  rcases ApplyLiquidation.step_events h with e | ⟨s, w₁, -, -, -, e⟩
  · rw [e]
  · rw [e]
    exact List.prefix_append _ _

/-- **Extension.** A step of any handler takes back nothing that was accepted or emitted. -/
theorem Task.step_extends {t : Task cfg} {n : Next (Task cfg) (Except Failure Reply)}
    (h : Task.step cfg c w a t = (w', n)) : w.Extends w' := by
  cases t with
  | createOrder p => cases h; exact CreateOrder.step_extends (Prod.eta _)
  | closePosition p => cases h; exact ClosePosition.step_extends (Prod.eta _)
  | cancelOrder p => cases h; exact CancelOrder.step_extends (Prod.eta _)
  | syncBalance p => cases h; exact SyncBalance.step_extends (Prod.eta _)
  | setMarginType p => cases h; exact SetMarginType.step_extends (Prod.eta _)
  | applyLiquidation p => cases h; exact ApplyLiquidation.step_extends (Prod.eta _)

/-! ## What a step commits -/

/-- **Commits.** A step of any handler leaves the tables as they are, or commits the handler's unit of
work. -/
theorem Task.step_db {t : Task cfg} {n : Next (Task cfg) (Except Failure Reply)}
    (h : Task.step cfg c w a t = (w', n)) :
    w'.db = w.db ∨ w.db.flush c (t.unitOfWork a) = some w'.db := by
  cases t with
  | createOrder p =>
    rcases hs : CreateOrder.step cfg c w a p with ⟨w₁, n₁⟩
    rw [Task.step, hs] at h
    cases h
    cases CreateOrder.step_cases hs with
    | failed db_eq => exact .inl db_eq
    | committed hc => exact .inr (World.commit_db hc)
    | _ => exact .inl rfl
  | closePosition p =>
    rcases hs : ClosePosition.step cfg c w a p with ⟨w₁, n₁⟩
    rw [Task.step, hs] at h
    cases h
    cases ClosePosition.step_cases hs with
    | committed hc => exact .inr (World.commit_db hc)
    | _ => exact .inl rfl
  | cancelOrder p =>
    rcases hs : CancelOrder.step cfg c w a p with ⟨w₁, n₁⟩
    rw [Task.step, hs] at h
    cases h
    cases CancelOrder.step_cases hs with
    | committed hc => exact .inr (World.commit_db hc)
    | _ => exact .inl rfl
  | syncBalance p =>
    rcases hs : SyncBalance.step cfg c w a p with ⟨w₁, n₁⟩
    rw [Task.step, hs] at h
    cases h
    cases SyncBalance.step_cases hs with
    | committed hc => exact .inr (World.commit_db hc)
    | _ => exact .inl rfl
  | setMarginType p =>
    rcases hs : SetMarginType.step cfg c w a p with ⟨w₁, n₁⟩
    rw [Task.step, hs] at h
    cases h
    cases SetMarginType.step_cases hs with
    | committed hc =>
      have hflush := World.commit_db hc
      exact .inr hflush
    | _ => exact .inl rfl
  | applyLiquidation p =>
    rcases hs : ApplyLiquidation.step cfg c w a p with ⟨w₁, n₁⟩
    rw [Task.step, hs] at h
    cases h
    cases ApplyLiquidation.step_cases hs with
    | committed db_eq hc => exact .inr (db_eq ▸ World.commit_db hc)
    | _ => exact .inl rfl

/-- So it leaves the tables valid. -/
theorem Task.step_valid {t : Task cfg} {n : Next (Task cfg) (Except Failure Reply)}
    (hv : w.db.Valid c) (h : Task.step cfg c w a t = (w', n)) : w'.db.Valid c := by
  rcases Task.step_db h with e | hf
  · rw [e]
    exact hv
  · exact hv.flush hf

/-! ## Units of work, statement by statement -/

/-- The statement updates a column of an account or of a position, and revives no position. -/
def Write.Moves : Write → Prop
  | .setBalance _ _ | .setMarginUsed _ _ | .setQuantity _ _ | .setEntryPrice _ _ | .setNotional _ _
  | .setMargin _ _ | .setMarginType _ _ => True
  | .setLiquidated _ v => v = true
  | _ => False

theorem moves_updateAccount (a a' : Account) : ∀ x ∈ updateAccount a a', x.Moves :=
  forall_updateAccount (fun _ => trivial) fun _ => trivial

theorem moves_updatePosition {p p' : Position}
    (h : p'.liquidated = p.liquidated ∨ p'.liquidated = true) :
    ∀ x ∈ updatePosition p p', x.Moves :=
  forall_updatePosition (fun _ => ⟨trivial, trivial, trivial, trivial⟩) (fun _ => trivial)
    h.resolve_left

theorem ClosePosition.moves_closing (s : ClosePosition.Loaded) (account : Option Account) :
    ∀ x ∈ s.closing account, x.Moves := by
  refine List.forall_mem_append.mpr ⟨?_, moves_updatePosition (.inr rfl)⟩
  cases account with
  | none => exact List.forall_mem_nil _
  | some a => exact moves_updateAccount _ _

theorem SetMarginType.moves_writes (r : SetMarginType.Request) (positions : List Position) :
    ∀ x ∈ SetMarginType.writes cfg r positions, x.Moves := by
  intro x hx
  obtain ⟨p, -, hp⟩ := List.mem_flatMap.mp hx
  have hkept : ({ p with marginType := r.marginType } : Position).liquidated = p.liquidated := rfl
  exact moves_updatePosition (.inl hkept) x hp

theorem ApplyLiquidation.moves_writes (s : ApplyLiquidation.Loop) : ∀ x ∈ s.writes, x.Moves := by
  refine List.forall_mem_append.mpr ⟨fun x hx => ?_, fun x hx => ?_⟩
  · obtain ⟨p, -, hp⟩ := List.mem_flatMap.mp hx
    exact moves_updatePosition (.inr rfl) x hp
  · obtain ⟨l, -, hl⟩ := List.mem_flatMap.mp hx
    exact moves_updateAccount _ _ x hl

end CryptoExchange
