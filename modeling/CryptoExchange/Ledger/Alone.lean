import CryptoExchange.Ledger.Flush
import CryptoExchange.Ledger.Steps

/-!
# Handlers that run alone

What a handler has seen and what it leaves when nothing else touches the tables in between. For
each handler, `Alone db₀ w p` says what holds in the phase `p` of a run that started with the
tables `db₀`: up to the commit the tables are still `db₀`, and the local variables are what was
read from them. `run_alone` is what the whole run leaves: the tables as they were, or the unit of
work of the last phase on them.
-/

namespace CryptoExchange

open Lib

variable {cfg : Config} {c : Column}

/-! ## The account -/

/-- The account is what the tables hold for the user, or new. -/
def OpenAccount.Current (db : Db) (userId : ℤ) (a : OpenAccount) : Prop :=
  if a.fresh then db.selectAccountOf userId = [] ∧ a.account = ⟨a.account.id, userId, 0, 0⟩
  else db.selectAccountOf userId = [a.account]

/-- A new account is flushed only when the `SELECT` found none. -/
def GetAccount.Alone (db : Db) (userId : ℤ) : GetAccount → Prop
  | .select => True
  | .flush => db.selectAccountOf userId = []

theorem GetAccount.alone_await {userId : ℤ} {w : World} {a : Answer} {p q : GetAccount}
    (h : p.step c userId w a = .await q) : q.Alone w.db userId := by
  cases p with
  | select =>
    simp only [GetAccount.step] at h
    split at h
    · cases h
    split at h
    · cases h
    · cases h
    · rename_i hs
      cases h
      exact scalarOneOrNone_none hs
  | flush =>
    simp only [GetAccount.step] at h
    split at h <;> cases h

theorem GetAccount.alone_done {userId : ℤ} {w : World} {a : Answer} {p : GetAccount}
    {o : OpenAccount} (hp : p.Alone w.db userId) (h : p.step c userId w a = .done (.ok o)) :
    o.Current w.db userId := by
  cases p with
  | select =>
    simp only [GetAccount.step] at h
    split at h
    · cases h
    split at h
    · cases h
    · rename_i hs
      cases h
      exact scalarOneOrNone_some hs
    · cases h
  | flush =>
    simp only [GetAccount.step] at h
    split at h
    · cases h
    · cases h
      exact ⟨hp, rfl⟩

/-! ## `create_order` -/

namespace CreateOrder

/-- The local variables are what the tables hold. -/
structure Loaded.Current (db : Db) (payload : OrderCreate) (s : Loaded) : Prop where
  payload_eq : s.payload = payload
  user : db.selectUser payload.userId = [s.user]
  opened : s.opened.Current db payload.userId

/-- `A` holds of the answers that the call got. -/
structure Checked.Current (db : Db) (payload : OrderCreate) (A : Answer → Prop)
    (s : Checked cfg) : Prop extends loaded : s.toLoaded.Current db payload where
  market : Reported A s.current
  volatility : ∃ a, A a ∧ s.vol = a.vol
  userExposure : s.userExposure = db.userExposure payload.userId
  globalExposure : s.globalExposure = db.globalExposure

/-- The commit of `create_order` on the tables that it read. -/
structure Committed (c : Column) (db : Db) (payload : OrderCreate) (A : Answer → Prop)
    (s : Placed cfg) (position : Option Position) (positionId tradeId : ℕ) (db' : Db) :
    Prop extends checked : s.toChecked.Current db payload A where
  position_eq : db.livePositionsOf payload.userId payload.symbol = position.toList
  flush : db.flush c (s.writes position positionId tradeId) = some db'

section

variable (c) (db₀ : Db) (payload : OrderCreate) (A : Answer → Prop)

def Alone (w : World) : Phase cfg → Prop
  | .selectUser p => w.db = db₀ ∧ p = payload
  | .getAccount p user q =>
    w.db = db₀ ∧ p = payload ∧ db₀.selectUser payload.userId = [user] ∧ q.Alone db₀ payload.userId
  | .getPrice s => w.db = db₀ ∧ s.Current db₀ payload
  | .userExposure s current => w.db = db₀ ∧ s.Current db₀ payload ∧ Reported A current
  | .globalExposure s current userExposure =>
    w.db = db₀ ∧ s.Current db₀ payload ∧ Reported A current ∧
      userExposure = db₀.userExposure payload.userId
  | .newOrder s | .flushOrder s _ => w.db = db₀ ∧ s.Current db₀ payload A
  | .redisSet s _ | .selectPosition s => w.db = db₀ ∧ s.toChecked.Current db₀ payload A
  | .commit s position =>
    w.db = db₀ ∧ s.toChecked.Current db₀ payload A ∧
      db₀.livePositionsOf payload.userId payload.symbol = position.toList
  | .refresh s => ∃ position i t, Committed c db₀ payload A s position i t w.db

/-- How `create_order` ends alone: without a change, or with a commit, and then the reply is of the
committed order. -/
def Ended (cfg : Config) (w : World) (r : Except Failure Reply) : Prop :=
  (w.db = db₀ ∧ ∀ x, r ≠ .ok x) ∨
  ∃ (s : Placed cfg) (position : Option Position) (i t : ℕ),
    Committed c db₀ payload A s position i t w.db ∧
    ∀ x, r = .ok x → ∃ o, findRow Order.id s.orderId w.db.orders = some o ∧ x = s.result o

variable {c db₀ payload A}

theorem alone_await {w w' : World} {a : Answer} {p p' : Phase cfg} (hA : A a)
    (hI : Alone c db₀ payload A w p) (h : step cfg c w a p = (w', .await p')) :
    Alone c db₀ payload A w' p' := by
  cases step_cases h with
  | user hs =>
    obtain ⟨hw, rfl⟩ := hI
    exact ⟨hw, rfl, hw ▸ scalarOneOrNone_some hs, trivial⟩
  | account hs =>
    obtain ⟨hw, rfl, hu, hq⟩ := hI
    exact ⟨hw, rfl, hu, hw ▸ GetAccount.alone_await hs⟩
  | opened hs =>
    obtain ⟨hw, rfl, hu, hq⟩ := hI
    exact ⟨hw, rfl, hu, hw ▸ GetAccount.alone_done (hw ▸ hq) hs⟩
  | priced hp => exact ⟨hI.1, hI.2, ⟨_, hA, hp⟩⟩
  | userSummed =>
    obtain ⟨hw, hs, hc⟩ := hI
    exact ⟨hw, hs, hc, by rw [hs.payload_eq, hw]⟩
  | approved hv hg =>
    obtain ⟨hw, hs, hc, hu⟩ := hI
    exact ⟨hw, ⟨hs, hc, ⟨_, hA, hv⟩, hu, hw ▸ hg⟩⟩
  | accepted hr => exact hI
  | flushed hf hx => exact hI
  | flushedOnly hf hx => exact hI
  | cached => exact hI
  | positioned hp =>
    obtain ⟨hw, hs⟩ := hI
    refine ⟨hw, hs, ?_⟩
    rw [hs.payload_eq, hw] at hp
    rename_i position
    cases position with
    | none => exact scalarOneOrNone_none hp
    | some p => exact scalarOneOrNone_some hp
  | committed hc =>
    obtain ⟨hw, hs, hp⟩ := hI
    exact ⟨_, _, _, ⟨hs, hp, hw ▸ World.commit_db hc⟩⟩

theorem alone_done {w w' : World} {a : Answer} {p : Phase cfg} {r : Except Failure Reply}
    (hI : Alone c db₀ payload A w p) (h : step cfg c w a p = (w', .done r)) :
    Ended c db₀ payload A cfg w' r := by
  cases step_cases h with
  | failed hdb =>
    cases p with
    | refresh s =>
      obtain ⟨position, i, t, hc⟩ := hI
      exact .inr ⟨s, position, i, t, hdb ▸ hc, by simp⟩
    | _ => exact .inl ⟨hdb.trans hI.1, by simp⟩
  | refreshed ho =>
    obtain ⟨position, i, t, hc⟩ := hI
    refine .inr ⟨_, position, i, t, hc, fun x hx => ⟨_, ho, ?_⟩⟩
    cases hx
    rfl

/-- **`create_order` alone.** -/
theorem run_alone {as : List Answer} {w w' : World} {r : Except Failure Reply}
    (hA : ∀ a ∈ as, A a)
    (h : run (step cfg c) as w (.selectUser payload) = some (w', r)) :
    Ended c w.db payload A cfg w' r :=
  run_induct (fun _ _ _ _ _ hC hI hs => alone_await hC hI hs) (fun _ _ _ _ _ _ => alone_done) hA
    (show Alone c w.db payload A w (.selectUser payload) from ⟨rfl, rfl⟩) h

end

end CreateOrder

/-! ## `close_position` -/

namespace ClosePosition

/-- The commit of `close_position` on the tables that it read. -/
structure Committed (c : Column) (db : Db) (userId : ℤ) (symbol : String) (s : Loaded)
    (closePrice : PyFloat) (account : Option Account) (orderId tradeId : ℕ) (db' : Db) :
    Prop where
  userId_eq : s.userId = userId
  symbol_eq : s.symbol = symbol
  position_eq : db.livePositionsOf userId symbol = [s.position]
  account_eq : db.selectAccount s.position.accountId = account.toList
  flush : db.flush c (s.writes closePrice account orderId tradeId) = some db'

section

variable (cfg c) (db₀ : Db) (userId : ℤ) (symbol : String) (A : Answer → Prop)

/-- The local variables are what the tables hold. -/
def Loaded.Current (s : Loaded) : Prop :=
  s.userId = userId ∧ s.symbol = cfg.upper symbol ∧
    db₀.livePositionsOf userId (cfg.upper symbol) = [s.position]

def Alone (w : World) : Phase → Prop
  | .selectPosition u s => w.db = db₀ ∧ u = userId ∧ s = symbol
  | .getPrice s => w.db = db₀ ∧ s.Current cfg db₀ userId symbol
  | .reduceOnly s p | .selectAccount s p => w.db = db₀ ∧ s.Current cfg db₀ userId symbol ∧ Reported A p
  | .flushOrder s p account | .commit s p account _ =>
    w.db = db₀ ∧ s.Current cfg db₀ userId symbol ∧ Reported A p ∧
      db₀.selectAccount s.position.accountId = account.toList

/-- How `close_position` ends alone: without a change, or with a commit. -/
def Ended (w : World) (r : Except Failure Reply) : Prop :=
  (w.db = db₀ ∧ ∀ x, r ≠ .ok x) ∨
  ∃ (s : Loaded) (closePrice : PyFloat) (account : Option Account) (o t : ℕ),
    Committed c db₀ userId (cfg.upper symbol) s closePrice account o t w.db ∧ Reported A closePrice

variable {cfg c db₀ userId symbol A}

theorem Alone.db_eq {w : World} {p : Phase} (h : Alone cfg db₀ userId symbol A w p) :
    w.db = db₀ := by
  cases p <;> exact h.1

theorem alone_await {w w' : World} {a : Answer} {p p' : Phase} (hA : A a)
    (hI : Alone cfg db₀ userId symbol A w p) (h : step cfg c w a p = (w', .await p')) :
    Alone cfg db₀ userId symbol A w' p' := by
  cases step_cases h with
  | found hs =>
    obtain ⟨hw, rfl, rfl⟩ := hI
    exact ⟨hw, rfl, rfl, hw ▸ scalarOneOrNone_some hs⟩
  | priced hp => exact ⟨hI.1, hI.2, ⟨_, hA, hp⟩⟩
  | reduced hr => exact hI
  | @account s closePrice account ha =>
    obtain ⟨hw, hs, hp⟩ := hI
    refine ⟨hw, hs, hp, ?_⟩
    rw [hw] at ha
    cases account with
    | none => exact scalarOneOrNone_none ha
    | some a => exact scalarOneOrNone_some ha
  | flushed hf => exact hI

theorem alone_done {w w' : World} {a : Answer} {p : Phase} {r : Except Failure Reply}
    (hI : Alone cfg db₀ userId symbol A w p) (h : step cfg c w a p = (w', .done r)) :
    Ended cfg c db₀ userId symbol A w' r := by
  cases step_cases h with
  | failed => exact .inl ⟨hI.db_eq, by simp⟩
  | committed hc =>
    obtain ⟨hw, ⟨hu, hs, hp⟩, hclose, ha⟩ := hI
    exact .inr ⟨_, _, _, _, _, ⟨hu, hs, hp, ha, hw ▸ World.commit_db hc⟩, hclose⟩

/-- **`close_position` alone.** -/
theorem run_alone {as : List Answer} {w w' : World} {r : Except Failure Reply}
    (hA : ∀ a ∈ as, A a)
    (h : run (step cfg c) as w (.selectPosition userId symbol) = some (w', r)) :
    Ended cfg c w.db userId symbol A w' r :=
  run_induct (fun _ _ _ _ _ hC hI hs => alone_await hC hI hs) (fun _ _ _ _ _ _ => alone_done) hA
    (show Alone cfg w.db userId symbol A w (.selectPosition userId symbol) from ⟨rfl, rfl, rfl⟩) h

end

end ClosePosition

/-! ## `cancel_order` -/

namespace CancelOrder

/-- The commit of `cancel_order` on the tables that it read. -/
structure Committed (c : Column) (db : Db) (orderId : ℕ) (userId : ℤ) (order : Order) (db' : Db) :
    Prop where
  order_eq : (db.orders.filter fun o => o.id = orderId ∧ o.userId = userId) = [order]
  flush : db.flush c (updateOrder order (canceled order)) = some db'

section

variable (c) (db₀ : Db) (orderId : ℕ) (userId : ℤ)

def Alone (w : World) : Phase → Prop
  | .selectOrder o u => w.db = db₀ ∧ o = orderId ∧ u = userId
  | .redisGet order | .cancelOrder order _ | .commit order =>
    w.db = db₀ ∧ (db₀.orders.filter fun o => o.id = orderId ∧ o.userId = userId) = [order]
  | .refresh order => Committed c db₀ orderId userId order w.db

/-- How `cancel_order` ends alone: without a change, or with a commit. -/
def Ended (w : World) (r : Except Failure Order) : Prop :=
  (w.db = db₀ ∧ ∀ x, r ≠ .ok x) ∨ ∃ order, Committed c db₀ orderId userId order w.db

variable {c db₀ orderId userId}

theorem alone_await {w w' : World} {a : Answer} {p p' : Phase}
    (hI : Alone c db₀ orderId userId w p) (h : step cfg c w a p = (w', .await p')) :
    Alone c db₀ orderId userId w' p' := by
  cases step_cases h with
  | found hs =>
    obtain ⟨hw, rfl, rfl⟩ := hI
    exact ⟨hw, hw ▸ scalarOneOrNone_some hs⟩
  | cached hx => exact hI
  | uncached hx => exact hI
  | accepted hr => exact hI
  | committed hc => exact ⟨hI.2, hI.1 ▸ World.commit_db hc⟩

theorem alone_done {w w' : World} {a : Answer} {p : Phase} {r : Except Failure Order}
    (hI : Alone c db₀ orderId userId w p) (h : step cfg c w a p = (w', .done r)) :
    Ended c db₀ orderId userId w' r := by
  cases step_cases h with
  | failed =>
    cases p with
    | refresh order => exact .inr ⟨order, hI⟩
    | _ => exact .inl ⟨hI.1, by simp⟩
  | refreshed ho => exact .inr ⟨_, hI⟩

/-- **`cancel_order` alone.** -/
theorem run_alone {as : List Answer} {w w' : World} {r : Except Failure Order}
    (h : run (step cfg c) as w (.selectOrder orderId userId) = some (w', r)) :
    Ended c w.db orderId userId w' r :=
  run_induct (fun _ _ _ _ _ _ => alone_await) (fun _ _ _ _ _ _ => alone_done)
    (fun _ _ => trivial)
    (show Alone c w.db orderId userId w (.selectOrder orderId userId) from ⟨rfl, rfl, rfl⟩) h

end

end CancelOrder

/-! ## `sync_balance_from_exchange` -/

namespace SyncBalance

section

variable (c) (db₀ : Db) (userId : ℤ) (A : Answer → Prop)

/-- The commit of `sync_balance_from_exchange` on the tables that it read. -/
structure Committed (a : OpenAccount) (balance : ℚ) (db' : Db) : Prop where
  opened : a.Current db₀ userId
  wallet : ∃ x, A x ∧ x.wallet = .ok (some balance)
  flush : db₀.flush c (writes a balance) = some db'

def Alone (w : World) : Phase → Prop
  | .getAccount u p => w.db = db₀ ∧ u = userId ∧ p.Alone db₀ userId
  | .wallet a => w.db = db₀ ∧ a.Current db₀ userId
  | .commit a balance => w.db = db₀ ∧ a.Current db₀ userId ∧ ∃ x, A x ∧ x.wallet = .ok (some balance)
  | .refresh _ => ∃ a balance, Committed c db₀ userId A a balance w.db

/-- How `sync_balance_from_exchange` ends alone: without a change, or with a commit. -/
def Ended (w : World) : Prop :=
  w.db = db₀ ∨ ∃ a balance, Committed c db₀ userId A a balance w.db

variable {c db₀ userId A}

theorem alone_await {w w' : World} {a : Answer} {p p' : Phase}
    (hA : A a) (hI : Alone c db₀ userId A w p)
    (h : step cfg c w a p = (w', .await p')) : Alone c db₀ userId A w' p' := by
  cases p with
  | getAccount u p =>
    obtain ⟨hw, rfl, hp⟩ := hI
    simp only [step] at h
    split at h
    · rename_i hs
      cases h
      exact ⟨hw, rfl, hw ▸ GetAccount.alone_await hs⟩
    · cases h
    · rename_i hs
      split at h
      · cases h
        exact ⟨hw, hw ▸ GetAccount.alone_done (hw ▸ hp) hs⟩
      · cases h
  | wallet o =>
    simp only [step] at h
    split at h
    · rename_i hb
      cases h
      exact ⟨hI.1, hI.2, ⟨_, hA, hb⟩⟩
    · cases h
  | commit o balance =>
    obtain ⟨hw, ho, hb⟩ := hI
    simp only [step] at h
    split at h
    · cases h
    split at h
    · cases h
    · rename_i hc
      cases h
      exact ⟨o, balance, ho, hb, hw ▸ World.commit_db hc⟩
  | refresh o =>
    simp only [step] at h
    split at h <;> cases h

theorem alone_done {w w' : World} {a : Answer} {p : Phase} {r : Except Failure Account}
    (hI : Alone c db₀ userId A w p) (h : step cfg c w a p = (w', .done r)) :
    Ended c db₀ userId A w' := by
  cases p with
  | getAccount u p =>
    simp only [step] at h
    split at h
    · cases h
    · cases h; exact .inl hI.1
    · split at h
      · cases h
      · cases h; exact .inl hI.1
  | wallet o =>
    simp only [step] at h
    split at h
    · cases h
    · cases h; exact .inl hI.1
  | commit o balance =>
    simp only [step] at h
    split at h
    · cases h; exact .inl hI.1
    split at h
    · cases h; exact .inl hI.1
    · cases h
  | refresh o =>
    simp only [step] at h
    split at h <;> (cases h; exact .inr hI)

/-- **`sync_balance_from_exchange` alone.** -/
theorem run_alone {as : List Answer} {w w' : World} {r : Except Failure Account}
    (hA : ∀ a ∈ as, A a)
    (h : run (step cfg c) as w (.getAccount userId .select) = some (w', r)) :
    Ended c w.db userId A w' :=
  run_induct (fun _ _ _ _ _ hC hI hs => alone_await hC hI hs) (fun _ _ _ _ _ _ => alone_done) hA
    (show Alone c w.db userId A w (.getAccount userId .select) from ⟨rfl, rfl, trivial⟩) h

end

end SyncBalance

/-! ## `set_margin_type` -/

namespace SetMarginType

section

variable (cfg c) (db₀ : Db) (q : Request)

def Alone (w : World) : Phase → Prop
  | .changeMarginType r | .selectPositions r => w.db = db₀ ∧ r = q
  | .commit r positions =>
    w.db = db₀ ∧ r = q ∧ positions = db₀.positions.filter fun p => p.userId = q.userId

/-- How `set_margin_type` ends alone: without a change, or with a commit. -/
def Ended (w : World) : Prop :=
  w.db = db₀ ∨
  db₀.flush c (writes cfg q (db₀.positions.filter fun p => p.userId = q.userId)) = some w.db

variable {cfg c db₀ q}

theorem alone_await {w w' : World} {a : Answer} {p p' : Phase} (hI : Alone db₀ q w p)
    (h : step cfg c w a p = (w', .await p')) : Alone db₀ q w' p' := by
  cases p with
  | changeMarginType r =>
    simp only [step] at h
    split at h
    · cases h
    split at h
    · cases h
    · cases h; exact hI
  | selectPositions r =>
    obtain ⟨hw, rfl⟩ := hI
    simp only [step] at h
    split at h
    · cases h
    · cases h; exact ⟨hw, rfl, by rw [hw]⟩
  | commit r positions =>
    simp only [step] at h
    split at h
    · cases h
    split at h <;> cases h

theorem alone_done {w w' : World} {a : Answer} {p : Phase} {r : Except Failure String}
    (hI : Alone db₀ q w p) (h : step cfg c w a p = (w', .done r)) : Ended cfg c db₀ q w' := by
  cases p with
  | changeMarginType r =>
    simp only [step] at h
    split at h
    · cases h; exact .inl hI.1
    split at h
    · cases h; exact .inl hI.1
    · cases h
  | selectPositions r =>
    simp only [step] at h
    split at h
    · cases h; exact .inl hI.1
    · cases h
  | commit r positions =>
    obtain ⟨hw, rfl, rfl⟩ := hI
    simp only [step] at h
    split at h
    · cases h; exact .inl hw
    split at h
    · cases h; exact .inl hw
    · rename_i hc
      cases h
      have := World.commit_db hc
      rw [hw] at this
      exact .inr this

/-- **`set_margin_type` alone.** -/
theorem run_alone {as : List Answer} {w w' : World} {r : Except Failure String}
    (h : run (step cfg c) as w (.changeMarginType q) = some (w', r)) :
    Ended cfg c w.db q w' :=
  run_induct (fun _ _ _ _ _ _ => alone_await) (fun _ _ _ _ _ _ => alone_done)
    (fun _ _ => trivial) (show Alone w.db q w (.changeMarginType q) from ⟨rfl, rfl⟩) h

end

end SetMarginType

/-! ## `_apply_liquidation` -/

namespace ApplyLiquidation

/-- `margin_used` of the account `id` after the release of the positions `ps`, one by one. -/
def releaseAll (id : ℕ) (ps : List Position) (marginUsed : ℚ) : ℚ :=
  ps.foldl (fun m p => if p.accountId = id then max (m - p.margin) 0 else m) marginUsed

theorem releaseAll_append (id : ℕ) (ps : List Position) (p : Position) (m : ℚ) :
    releaseAll id (ps ++ [p]) m =
      if p.accountId = id then max (releaseAll id ps m - p.margin) 0 else releaseAll id ps m := by
  rw [releaseAll, List.foldl_append]
  rfl

theorem releaseAll_of_ne {id : ℕ} {ps : List Position} (h : ∀ p ∈ ps, p.accountId ≠ id) (m : ℚ) :
    releaseAll id ps m = m := by
  induction ps with
  | nil => rfl
  | cons p ps ih =>
    have hp := h p List.mem_cons_self
    rw [releaseAll, List.foldl_cons, if_neg hp]
    exact ih fun q hq => h q (List.mem_cons_of_mem _ hq)

/-- The loaded accounts after the turns of the positions `ps`: `L` holds of them as they were
loaded, and the others of `ps` are `missing`. -/
structure Turned (L : Account → Prop) (missing : ℕ → Prop) (ps : List Position)
    (accounts : List Loaded) : Prop where
  loaded : ∀ l ∈ accounts, L l.account
  keyed : Keyed (fun l => l.account.id) accounts
  released : ∀ l ∈ accounts, l.marginUsed = releaseAll l.account.id ps l.account.marginUsed
  complete : ∀ p ∈ ps, missing p.accountId ∨ ∃ l ∈ accounts, l.account.id = p.accountId

/-- The accounts were loaded from these tables. -/
abbrev Released (db : Db) : List Position → List Loaded → Prop :=
  Turned (fun a => db.selectAccount a.id = [a]) fun id => db.selectAccount id = []

theorem Turned.nil (L : Account → Prop) (missing : ℕ → Prop) : Turned L missing [] [] :=
  ⟨by simp, List.nodup_nil, by simp, by simp⟩

theorem Turned.mono {L L' : Account → Prop} {missing : ℕ → Prop} {ps : List Position}
    {accounts : List Loaded} (h : Turned L missing ps accounts) (hL : ∀ a, L a → L' a) :
    Turned L' missing ps accounts :=
  { h with loaded := fun l hl => hL _ (h.loaded l hl) }

theorem mem_release {id : ℕ} {m : ℚ} {accounts : List Loaded} {l : Loaded}
    (h : l ∈ release id m accounts) : ∃ k ∈ accounts, l.account = k.account ∧
      l.marginUsed = if k.account.id = id then max (k.marginUsed - m) 0 else k.marginUsed := by
  obtain ⟨k, hk, rfl⟩ := List.mem_map.mp h
  refine ⟨k, hk, ?_⟩
  split <;> exact ⟨rfl, rfl⟩

theorem release_ids (id : ℕ) (m : ℚ) (accounts : List Loaded) :
    (release id m accounts).map Loaded.account = accounts.map Loaded.account := by
  rw [release, List.map_map]
  refine List.map_congr_left fun l _ => ?_
  simp only [Function.comp]
  split <;> rfl

/-- The turn of a position whose account is loaded, or missing. -/
theorem Turned.turn {L : Account → Prop} {missing : ℕ → Prop} {ps : List Position}
    {accounts : List Loaded} {p : Position} (h : Turned L missing ps accounts)
    (hp : missing p.accountId ∨ ∃ l ∈ accounts, l.account.id = p.accountId) :
    Turned L missing (ps ++ [p]) (release p.accountId p.margin accounts) := by
  have ids := release_ids p.accountId p.margin accounts
  have still : ∀ id, (∃ l ∈ accounts, l.account.id = id) →
      ∃ l ∈ release p.accountId p.margin accounts, l.account.id = id := by
    rintro id ⟨l, hl, rfl⟩
    have : l.account ∈ (release p.accountId p.margin accounts).map Loaded.account := by
      rw [ids]; exact List.mem_map_of_mem hl
    obtain ⟨k, hk, e⟩ := List.mem_map.mp this
    exact ⟨k, hk, by rw [e]⟩
  refine ⟨?_, ?_, ?_, ?_⟩
  · intro l hl
    obtain ⟨k, hk, e, -⟩ := mem_release hl
    rw [e]; exact h.loaded k hk
  · have := congrArg (List.map Account.id) ids
    rw [List.map_map, List.map_map] at this
    rw [Keyed, show (fun l : Loaded => l.account.id) = Account.id ∘ Loaded.account from rfl, this]
    exact h.keyed
  · intro l hl
    obtain ⟨k, hk, e, e'⟩ := mem_release hl
    rw [e', e, releaseAll_append, ← h.released k hk]
    by_cases hid : k.account.id = p.accountId
    · rw [if_pos hid, if_pos hid.symm]
    · rw [if_neg hid, if_neg fun x => hid x.symm]
  · intro q hq
    rcases List.mem_append.mp hq with hq | hq
    · exact (h.complete q hq).imp_right (still _)
    · rw [List.mem_singleton.mp hq]
      exact hp.imp_right (still _)

/-- An account joins the identity map. -/
theorem Turned.load {L : Account → Prop} {missing : ℕ → Prop} {ps : List Position}
    {accounts : List Loaded} {a : Account} (h : Turned L missing ps accounts) (ha : L a)
    (hm : ¬missing a.id) (hn : ∀ l ∈ accounts, l.account.id ≠ a.id) :
    Turned L missing ps (accounts ++ [⟨a, a.marginUsed⟩]) := by
  refine ⟨?_, h.keyed.append hn, ?_, ?_⟩
  · intro l hl
    rcases List.mem_append.mp hl with hl | hl
    · exact h.loaded l hl
    · rw [List.mem_singleton.mp hl]; exact ha
  · intro l hl
    rcases List.mem_append.mp hl with hl | hl
    · exact h.released l hl
    · rw [List.mem_singleton.mp hl]
      refine (releaseAll_of_ne (fun p hp e => ?_) _).symm
      rcases h.complete p hp with h' | ⟨l', hl', e'⟩
      · exact hm (e ▸ h')
      · exact hn l' hl' (e'.trans e)
  · intro p hp
    exact (h.complete p hp).imp_right fun ⟨l, hl, e⟩ => ⟨l, List.mem_append_left _ hl, e⟩

/-- The commit of `_apply_liquidation` on the tables that it read. -/
structure Committed (c : Column) (db : Db) (symbol : String) (s : Loop) (db' : Db) : Prop where
  positions : s.positions = db.livePositionsIn symbol
  released : Released db s.positions s.accounts
  flush : db.flush c s.writes = some db'

section

variable (c) (db₀ : Db) (symbol : String)

def Alone (w : World) : Phase → Prop
  | .selectPositions sym => w.db = db₀ ∧ sym = symbol
  | .selectAccount s p todo => w.db = db₀ ∧ s.positions = db₀.livePositionsIn symbol ∧
      ∃ ps, s.positions = ps ++ p :: todo ∧ Released db₀ ps s.accounts
  | .commit s => w.db = db₀ ∧ s.positions = db₀.livePositionsIn symbol ∧
      Released db₀ s.positions s.accounts

/-- How `_apply_liquidation` ends alone: without a change, or with a commit. -/
def Ended (w : World) : Prop := w.db = db₀ ∨ ∃ s, Committed c db₀ symbol s w.db

variable {c db₀ symbol}

theorem Alone.db_eq {w : World} {p : Phase} (h : Alone db₀ symbol w p) : w.db = db₀ := by
  cases p <;> exact h.1

/-- The phase after a turn. -/
theorem alone_turn {w : World} {s : Loop} {p : Position} {todo : List Position}
    {accounts : List Loaded} {ps : List Position} (hw : w.db = db₀)
    (hs : s.positions = db₀.livePositionsIn symbol) (hps : s.positions = ps ++ p :: todo)
    (h : Released db₀ (ps ++ [p]) (release p.accountId p.margin accounts)) :
    Alone db₀ symbol w (s.turn p todo accounts) := by
  unfold Loop.turn
  cases todo with
  | nil =>
    refine ⟨hw, hs, ?_⟩
    show Released db₀ s.positions _
    rw [hps]
    exact h
  | cons q todo =>
    refine ⟨hw, hs, ps ++ [p], ?_, h⟩
    show s.positions = _
    rw [hps, List.append_assoc]
    rfl

theorem alone_await {w w' : World} {a : Answer} {p p' : Phase} (hI : Alone db₀ symbol w p)
    (h : step cfg c w a p = (w', .await p')) : Alone db₀ symbol w' p' := by
  cases step_cases h with
  | found hs =>
    obtain ⟨hw, rfl⟩ := hI
    exact ⟨hw, by rw [← hs, hw], [], rfl, .nil _ _⟩
  | known hl =>
    obtain ⟨hw, hs, ps, hps, hr⟩ := hI
    exact alone_turn hw hs hps (hr.turn (.inr hl))
  | missing hl ha =>
    obtain ⟨hw, hs, ps, hps, hr⟩ := hI
    exact alone_turn hw hs hps (hr.turn (.inl (scalarOneOrNone_none (hw ▸ ha))))
  | @loaded s p todo a hl ha =>
    obtain ⟨hw, hs, ps, hps, hr⟩ := hI
    have ha := scalarOneOrNone_some ha
    rw [hw] at ha
    have hid : a.id = p.accountId := by
      have : a ∈ db₀.selectAccount p.accountId := by rw [ha]; exact List.mem_cons_self
      simpa using (List.mem_filter.mp this).2
    have ha' : db₀.selectAccount a.id = [a] := hid ▸ ha
    exact alone_turn hw hs hps ((hr.load ha' (by simp [ha'])
      fun l hl' e => hl ⟨l, hl', e.trans hid⟩).turn
      (.inr ⟨⟨a, a.marginUsed⟩, List.mem_append_right _ List.mem_cons_self, hid⟩))

theorem alone_done {w w' : World} {a : Answer} {p : Phase} {r : Except Failure Unit}
    (hI : Alone db₀ symbol w p) (h : step cfg c w a p = (w', .done r)) :
    Ended c db₀ symbol w' := by
  cases step_cases h with
  | unchanged => exact .inl hI.db_eq
  | committed hdb hc =>
    obtain ⟨hw, hs, hr⟩ := hI
    exact .inr ⟨_, hs, hr, by rw [hdb, ← hw]; exact World.commit_db hc⟩

/-- **`_apply_liquidation` alone.** -/
theorem run_alone {as : List Answer} {w w' : World} {r : Except Failure Unit}
    (h : run (step cfg c) as w (.selectPositions symbol) = some (w', r)) :
    Ended c w.db symbol w' :=
  run_induct (fun _ _ _ _ _ _ => alone_await) (fun _ _ _ _ _ _ => alone_done)
    (fun _ _ => trivial)
    (show Alone w.db symbol w (.selectPositions symbol) from ⟨rfl, rfl⟩) h

end

end ApplyLiquidation

end CryptoExchange
