import CryptoExchange.Ledger.Alone

/-!
# What a commit leaves in the tables

For each handler that ran alone, the tables after its commit, written out. These are the only facts
about the handlers that the invariants of the ledger use.
-/

namespace CryptoExchange

open Lib Db

variable {cfg : Config} {c : Column} {db db' : Db}

namespace Db

theorem flush_append_some {ws ws' : List Write} (h : db.flush c (ws ++ ws') = some db') :
    ∃ db₁, db.flush c ws = some db₁ ∧ db₁.flush c ws' = some db' := by
  rw [flush_append] at h
  exact Option.bind_eq_some_iff.mp h

theorem mem_selectAccountOf {userId : ℤ} {a : Account} :
    a ∈ db.selectAccountOf userId ↔ a ∈ db.accounts ∧ a.userId = userId := by
  simp [selectAccountOf]

theorem mem_selectAccount {id : ℕ} {a : Account} :
    a ∈ db.selectAccount id ↔ a ∈ db.accounts ∧ a.id = id := by
  simp [selectAccount]

theorem selectAccountOf_eq {userId : ℤ} {a : Account} (h : db.selectAccountOf userId = [a]) :
    a ∈ db.accounts ∧ a.userId = userId :=
  mem_selectAccountOf.mp (h ▸ List.mem_cons_self)

theorem selectAccount_eq {id : ℕ} {a : Account} (h : db.selectAccount id = [a]) :
    a ∈ db.accounts ∧ a.id = id :=
  mem_selectAccount.mp (h ▸ List.mem_cons_self)

theorem selectAccountOf_nil {userId : ℤ} (h : db.selectAccountOf userId = []) :
    ∀ a ∈ db.accounts, a.userId ≠ userId := by
  simpa [selectAccountOf, List.filter_eq_nil_iff] using h

theorem mem_livePositionsOf {userId : ℤ} {symbol : String} {p : Position} :
    p ∈ db.livePositionsOf userId symbol ↔
      p ∈ db.positions ∧ p.userId = userId ∧ p.symbol = symbol ∧ p.liquidated = false := by
  simp [livePositionsOf]

theorem mem_livePositionsIn {symbol : String} {p : Position} :
    p ∈ db.livePositionsIn symbol ↔
      p ∈ db.positions ∧ p.symbol = symbol ∧ p.liquidated = false := by
  simp [livePositionsIn]

end Db

/-! ## Accounts -/

/-- The accounts with the one that the session inserted. -/
def OpenAccount.accounts (c : Column) (o : OpenAccount) (accounts : List Account) : List Account :=
  if o.fresh then accounts ++ [storeAccount c o.account] else accounts

theorem OpenAccount.flush_writes {o : OpenAccount} (h : db.flush c o.writes = some db') :
    db' = { db with accounts := o.accounts c db.accounts } := by
  unfold OpenAccount.writes at h
  unfold OpenAccount.accounts
  split at h
  · rename_i hf
    rw [if_pos hf]
    exact (flush_insertAccount h).2
  · rename_i hf
    rw [if_neg hf]
    cases h
    rfl

theorem OpenAccount.Current.userId {o : OpenAccount} {userId : ℤ} (h : o.Current db userId) :
    o.account.userId = userId := by
  unfold OpenAccount.Current at h
  split at h
  · rw [h.2]
  · exact (selectAccountOf_eq h).2

theorem OpenAccount.Current.mem {o : OpenAccount} {userId : ℤ} (h : o.Current db userId) :
    o.account ∈ o.accounts c db.accounts := by
  unfold OpenAccount.Current at h
  unfold OpenAccount.accounts
  split at h
  · rename_i hf
    have hs : storeAccount c o.account = o.account := by
      rw [h.2]; simp [storeAccount]
    rw [if_pos hf, hs]
    exact List.mem_append_right _ List.mem_cons_self
  · rename_i hf
    rw [if_neg hf]
    exact (selectAccountOf_eq h).1

/-! ## `create_order` -/

namespace CreateOrder

/-- The positions after the commit. -/
def Placed.positions (c : Column) (s : Placed cfg) (position : Option Position) (i : ℕ)
    (ps : List Position) : List Position :=
  match position with
  | some p => modify Position.id p.id (fun _ => storePosition c (s.added p)) ps
  | none => ps ++ [storePosition c (s.position i)]

/-- The tables after the commit. -/
def Placed.booked (c : Column) (db : Db) (s : Placed cfg) (position : Option Position) (i t : ℕ) :
    Db where
  users := db.users
  accounts := modify Account.id s.account.id (fun _ => storeAccount c s.reserved)
    (s.opened.accounts c db.accounts)
  positions := s.positions c position i db.positions
  orders := db.orders ++ [storeOrder c s.order]
  trades := db.trades ++ [storeTrade c (s.trade t)]

theorem flush_opened {s : Placed cfg} {position : Option Position} {i t : ℕ}
    (h : db.flush c (s.writes position i t) = some db') :
    ∃ db₁, db.flush c s.opened.writes = some db₁ := by
  simp only [Placed.writes, List.append_assoc] at h
  obtain ⟨db₁, h₁, -⟩ := flush_append_some h
  exact ⟨db₁, h₁⟩

/-- The tables after a commit, whatever came before it: the columns that the call changed overwrite
those of the rows that are there now. -/
theorem flush_tables {s : Placed cfg} {position : Option Position} {i t : ℕ}
    (h : db.flush c (s.writes position i t) = some db') :
    db' =
      { users := db.users
        accounts := modify Account.id s.account.id (patchAccount c s.account s.reserved)
          (s.opened.accounts c db.accounts)
        positions := position.elim (db.positions ++ [storePosition c (s.position i)]) fun p =>
          modify Position.id p.id (patchPosition c p (s.added p)) db.positions
        orders := db.orders ++ [storeOrder c s.order]
        trades := db.trades ++ [storeTrade c (s.trade t)] } := by
  unfold Placed.writes at h
  obtain ⟨db₄, h, h₅⟩ := flush_append_some h
  obtain ⟨db₃, h, h₄⟩ := flush_append_some h
  obtain ⟨db₂, h, h₃⟩ := flush_append_some h
  obtain ⟨db₁, h₁, h₂⟩ := flush_append_some h
  rw [flush_updateAccount, (flush_insertOrder h₂).2, OpenAccount.flush_writes h₁] at h₃
  cases h₃
  rw [(flush_insertTrade h₅).2]
  cases position with
  | none =>
    rw [(flush_insertPosition h₄).2]
    rfl
  | some p =>
    rw [flush_updatePosition] at h₄
    cases h₄
    rfl

theorem Committed.opened_flush {payload : OrderCreate} {A : Answer → Prop} {s : Placed cfg}
    {position : Option Position} {i t : ℕ} (h : Committed c db payload A s position i t db') :
    ∃ db₁, db.flush c s.opened.writes = some db₁ := flush_opened h.flush

/-- The live position in the symbol. -/
theorem Committed.mem {payload : OrderCreate} {A : Answer → Prop} {s : Placed cfg} {p : Position}
    {i t : ℕ} (h : Committed c db payload A s (some p) i t db') : p ∈ db.positions ∧
      p.userId = s.payload.userId ∧ p.symbol = s.payload.symbol ∧ p.liquidated = false := by
  have hm : p ∈ db.livePositionsOf payload.userId payload.symbol := by
    rw [h.position_eq]; exact List.mem_cons_self
  rw [h.payload_eq]
  exact mem_livePositionsOf.mp hm

theorem Committed.eq {payload : OrderCreate} {A : Answer → Prop} {s : Placed cfg}
    {position : Option Position} {i t : ℕ} (hv : db.Valid c)
    (h : Committed c db payload A s position i t db') : db' = s.booked c db position i t := by
  have hw := h.flush
  unfold Placed.writes at hw
  obtain ⟨db₄, hw, h₅⟩ := flush_append_some hw
  obtain ⟨db₃, hw, h₄⟩ := flush_append_some hw
  obtain ⟨db₂, hw, h₃⟩ := flush_append_some hw
  obtain ⟨db₁, h₁, h₂⟩ := flush_append_some hw
  have hv₁ := hv.flush h₁
  have hv₂ := hv₁.flush h₂
  have hv₃ := hv₂.flush h₃
  have e₁ := OpenAccount.flush_writes h₁
  have e₂ := (flush_insertOrder h₂).2
  have hmem : s.account ∈ db₂.accounts := by
    rw [e₂, e₁]; exact h.opened.mem
  have e₃ : db₂.setAccount c s.reserved = db₃ := by
    have := flush_setAccount hv₂ s.reserved hmem rfl rfl
    rw [h₃] at this
    exact (Option.some.inj this).symm
  have e₄ : db₄ = { db₃ with positions := s.positions c position i db₃.positions } := by
    have hpos : db₃.positions = db.positions := by rw [← e₃, e₂, e₁]; rfl
    cases position with
    | none => exact (flush_insertPosition h₄).2
    | some p =>
      have hp : p ∈ db₃.positions := hpos ▸ h.mem.1
      have := flush_setPosition hv₃ (s.added p) hp rfl rfl rfl rfl
      rw [h₄] at this
      exact Option.some.inj this
  rw [(flush_insertTrade h₅).2, e₄, ← e₃, e₂, e₁]
  rfl

end CreateOrder

/-! ## `close_position` -/

namespace ClosePosition

/-- The tables after the commit. -/
def Loaded.closed (c : Column) (db : Db) (s : Loaded) (closePrice : PyFloat)
    (account : Option Account) (o t : ℕ) : Db where
  users := db.users
  accounts := match account with
    | some a => modify Account.id a.id (fun _ => storeAccount c (s.released a)) db.accounts
    | none => db.accounts
  positions := modify Position.id s.position.id
    (fun _ => storePosition c { s.position with liquidated := true }) db.positions
  orders := db.orders ++ [storeOrder c (s.order o closePrice)]
  trades := db.trades ++ [storeTrade c (s.trade t o closePrice)]

/-- The position that is closed. -/
theorem Committed.mem {userId : ℤ} {symbol : String} {s : Loaded} {closePrice : PyFloat}
    {account : Option Account} {o t : ℕ}
    (h : Committed c db userId symbol s closePrice account o t db') :
    s.position ∈ db.positions ∧ s.position.userId = userId ∧ s.position.symbol = symbol ∧
      s.position.liquidated = false := by
  refine mem_livePositionsOf.mp ?_
  rw [h.position_eq]
  exact List.mem_cons_self

theorem Committed.eq {userId : ℤ} {symbol : String} {s : Loaded} {closePrice : PyFloat}
    {account : Option Account} {o t : ℕ} (hv : db.Valid c)
    (h : Committed c db userId symbol s closePrice account o t db') :
    db' = s.closed c db closePrice account o t := by
  have hw := h.flush
  unfold Loaded.writes Loaded.closing at hw
  obtain ⟨db₃, hw, h₄⟩ := flush_append_some hw
  obtain ⟨db₂, hw, h₃⟩ := flush_append_some hw
  obtain ⟨db₁, h₁, h₂⟩ := flush_append_some hw
  have hv₁ := hv.flush h₁
  have e₁ : db₁ = { db with accounts := (s.closed c db closePrice account o t).accounts } := by
    cases account with
    | none => cases h₁; rfl
    | some a =>
      have ha : a ∈ db.accounts := (selectAccount_eq h.account_eq).1
      have := flush_setAccount hv (s.released a) ha rfl rfl
      rw [h₁] at this
      exact Option.some.inj this
  have hp : s.position ∈ db₁.positions := by
    rw [e₁]
    exact h.mem.1
  have e₂ : db₁.setPosition c { s.position with liquidated := true } = db₂ := by
    have := flush_setPosition hv₁ { s.position with liquidated := true } hp rfl rfl rfl rfl
    rw [h₂] at this
    exact (Option.some.inj this).symm
  rw [(flush_insertTrade h₄).2, (flush_insertOrder h₃).2, ← e₂, e₁]
  rfl

end ClosePosition

/-! ## `cancel_order` -/

theorem CancelOrder.Committed.eq {orderId : ℕ} {userId : ℤ} {order : Order} (hv : db.Valid c)
    (h : CancelOrder.Committed c db orderId userId order db') :
    order ∈ db.orders ∧ order.id = orderId ∧ order.userId = userId ∧
      db' = db.modifyOrder orderId CancelOrder.canceled := by
  have hm : order ∈ db.orders.filter fun o => o.id = orderId ∧ o.userId = userId := by
    rw [h.order_eq]; exact List.mem_cons_self
  simp only [List.mem_filter, decide_eq_true_eq] at hm
  obtain ⟨hmem, hid, hu⟩ := hm
  refine ⟨hmem, hid, hu, ?_⟩
  have hw := h.flush
  rw [flush_updateOrder] at hw
  cases hw
  rw [← hid, modifyOrder, modifyOrder]
  have key : ∀ o ∈ db.orders, o.id = order.id →
      { o with status := patch id order.status (CancelOrder.canceled order).status o.status } =
        CancelOrder.canceled o := by
    intro o ho e
    rw [hv.orders.keyed.eq_of_key ho hmem e, patch_id_self]
    rfl
  rw [modify_congr key]

/-! ## `sync_balance_from_exchange` -/

theorem SyncBalance.Committed.opened_flush {userId : ℤ} {A : Answer → Prop} {o : OpenAccount}
    {balance : ℚ} (h : SyncBalance.Committed c db userId A o balance db') :
    ∃ db₁, db.flush c o.writes = some db₁ := by
  obtain ⟨db₁, h₁, -⟩ := flush_append_some h.flush
  exact ⟨db₁, h₁⟩

theorem SyncBalance.Committed.eq {userId : ℤ} {A : Answer → Prop} {o : OpenAccount} {balance : ℚ}
    (hv : db.Valid c) (h : SyncBalance.Committed c db userId A o balance db') :
    db' = { db with
      accounts := modify Account.id o.account.id
        (fun _ => storeAccount c { o.account with balance }) (o.accounts c db.accounts) } := by
  obtain ⟨db₁, h₁, h₂⟩ := flush_append_some h.flush
  have e₁ := OpenAccount.flush_writes h₁
  have hm : o.account ∈ db₁.accounts := by rw [e₁]; exact h.opened.mem
  have := flush_setAccount (hv.flush h₁) { o.account with balance } hm rfl rfl
  rw [h₂, e₁] at this
  exact Option.some.inj this

/-! ## Several rows -/

namespace Db

theorem flush_flatMap {α : Type} {g : α → List Write} {f : α → Db → Db} {xs : List α}
    (h : ∀ x ∈ xs, ∀ db, flush c (g x) db = some (f x db)) (db : Db) :
    flush c (xs.flatMap g) db = some (xs.foldl (fun db x => f x db) db) := by
  induction xs generalizing db with
  | nil => rfl
  | cons x xs ih =>
    rw [List.flatMap_cons, flush_append, h x List.mem_cons_self, Option.bind_some]
    exact ih (fun y hy => h y (List.mem_cons_of_mem _ hy)) _

theorem foldl_modifyPosition {α : Type} (k : α → ℕ) (f : α → Position → Position) (xs : List α)
    (db : Db) : xs.foldl (fun db x => db.modifyPosition (k x) (f x)) db =
      { db with
        positions := xs.foldl (fun l x => modify Position.id (k x) (f x) l) db.positions } := by
  induction xs generalizing db with
  | nil => rfl
  | cons x xs ih => exact ih _

theorem foldl_modifyAccount {α : Type} (k : α → ℕ) (f : α → Account → Account) (xs : List α)
    (db : Db) : xs.foldl (fun db x => db.modifyAccount (k x) (f x)) db =
      { db with
        accounts := xs.foldl (fun l x => modify Account.id (k x) (f x) l) db.accounts } := by
  induction xs generalizing db with
  | nil => rfl
  | cons x xs ih => exact ih _

end Db

/-! ## `set_margin_type` -/

namespace SetMarginType

variable {r : Request} {ps : List Position}

/-- The row `now` after the change of a row that was loaded as `p`. -/
def change (r : Request) (p now : Position) : Position :=
  { now with marginType := patch id p.marginType r.marginType now.marginType }

/-- The loop writes row by row; no write is refused. -/
theorem flush_loop (db : Db) :
    db.flush c (writes cfg r ps) =
      some ((touched cfg r ps).foldl (fun db p => db.modifyPosition p.id (change r p)) db) := by
  have hflush : ∀ (p : Position) (db : Db),
      db.flush c (updatePosition p { p with marginType := r.marginType }) =
        some (db.modifyPosition p.id (change r p)) := by
    intro p db
    rw [flush_updatePosition]
    congr 2
    funext now
    simp [patchPosition, patch, change]
  exact flush_flatMap (fun p _ => hflush p) db

theorem flush_writes (hk : Keyed Position.id ps) :
    db.flush c (writes cfg r ps) =
      some { db with positions := db.positions.map fun p =>
        ((findRow Position.id p.id (touched cfg r ps)).map fun u => change r u p).getD p } := by
  have hk' : Keyed Position.id (touched cfg r ps) := hk.sublist (List.filter_sublist.map _)
  rw [flush_loop, foldl_modifyPosition,
    foldl_modify Position.id (change r) (fun _ _ => rfl) hk']

/-- Only margin types change. -/
theorem flush_eq (hk : Keyed Position.id ps) (h : db.flush c (writes cfg r ps) = some db') :
    ∃ f : Position → MarginType,
      db' = { db with positions := db.positions.map fun p => { p with marginType := f p } } := by
  rw [flush_writes hk] at h
  refine ⟨fun p => (((findRow Position.id p.id (touched cfg r ps)).map fun u =>
    change r u p).getD p).marginType, ?_⟩
  rw [← Option.some.inj h]
  congr 1
  refine List.map_congr_left fun p _ => ?_
  beta_reduce
  cases findRow Position.id p.id (touched cfg r ps) <;> rfl

end SetMarginType

/-! ## `_apply_liquidation` -/

namespace ApplyLiquidation

/-- The tables after the commit. -/
def liquidated (c : Column) (db : Db) (symbol : String) : Db :=
  { db with
    accounts := db.accounts.map fun a =>
      { a with marginUsed := c.store (releaseAll a.id (db.livePositionsIn symbol) a.marginUsed) }
    positions := db.positions.map fun p =>
      if p.symbol = symbol ∧ p.liquidated = false then { p with liquidated := true } else p }

/-- What the commit leaves of an account. -/
theorem account_eq {symbol : String} {s : Loop} (hv : db.Valid c)
    (h : Committed c db symbol s db') {a : Account} (ha : a ∈ db.accounts) :
    ((findRow (fun l : Loaded => l.account.id) a.id s.accounts).map fun l =>
      patchAccount c l.account { l.account with marginUsed := l.marginUsed } a).getD a =
    { a with marginUsed := c.store (releaseAll a.id s.positions a.marginUsed) } := by
  have stored := hv.accounts.rows a ha
  cases hl : findRow (fun l : Loaded => l.account.id) a.id s.accounts with
  | none =>
    have hn : ∀ p ∈ s.positions, p.accountId ≠ a.id := by
      intro p hp e
      rcases h.released.complete p hp with h' | ⟨l, hl', e'⟩
      · rw [e, selectAccount, List.filter_eq_nil_iff] at h'
        exact h' a ha (by simp)
      · exact findRow_none.mp hl l hl' (e'.trans e)
    rw [releaseAll_of_ne hn, stored.2.store]
    rfl
  | some l =>
    obtain ⟨hmem, hid⟩ := findRow_mem hl
    obtain ⟨hla, -⟩ := selectAccount_eq (h.released.loaded l hmem)
    have e : l.account = a := hv.accounts.keyed.eq_of_key hla ha hid
    rw [Option.map_some, Option.getD_some, h.released.released l hmem, e]
    have := patchAccount_self { a with marginUsed := releaseAll a.id s.positions a.marginUsed }
      stored rfl rfl
    rw [this, storeAccount, stored.1.store]

theorem Committed.eq {symbol : String} {s : Loop} (hv : db.Valid c)
    (h : Committed c db symbol s db') : db' = liquidated c db symbol := by
  obtain ⟨db₁, h₁, h₂⟩ := flush_append_some h.flush
  have live : ∀ p, p ∈ s.positions ↔
      p ∈ db.positions ∧ p.symbol = symbol ∧ p.liquidated = false := by
    rw [h.positions]; exact fun p => mem_livePositionsIn
  let g (_ now : Position) : Position := { now with liquidated := true }
  have hpos : ∀ p ∈ s.positions, ∀ db : Db,
      db.flush c (updatePosition p { p with liquidated := true }) =
        some (db.modifyPosition p.id (g p)) := by
    intro p hp db
    rw [flush_updatePosition]
    congr 2
    funext now
    simp [patchPosition, patch, g, ((live p).mp hp).2.2]
  have hk : Keyed Position.id s.positions := by
    rw [h.positions]
    exact hv.positions.keyed.sublist (List.filter_sublist.map _)
  rw [flush_flatMap hpos, foldl_modifyPosition,
    foldl_modify Position.id g (fun _ _ => rfl) hk] at h₁
  rw [flush_flatMap fun l _ db => flush_updateAccount l.account _, foldl_modifyAccount,
    foldl_modify (fun l : Loaded => l.account.id)
      (fun l => patchAccount c l.account { l.account with marginUsed := l.marginUsed })
      (fun _ _ => rfl) h.released.keyed] at h₂
  rw [← Option.some.inj h₂, ← Option.some.inj h₁]
  unfold liquidated
  congr 1
  · refine List.map_congr_left fun a ha => ?_
    rw [account_eq hv h ha, h.positions]
  · refine List.map_congr_left fun p hp => ?_
    by_cases hs : p.symbol = symbol ∧ p.liquidated = false
    · have hm : p ∈ s.positions := (live p).mpr ⟨hp, hs⟩
      rw [if_pos hs, hk.findRow hm]
      rfl
    · have hn : findRow Position.id p.id s.positions = none := by
        refine findRow_none.mpr fun q hq e => hs ?_
        obtain ⟨hq, hs'⟩ := (live q).mp hq
        rwa [hv.positions.keyed.eq_of_key hq hp e] at hs'
      rw [if_neg hs, hn]
      rfl

end ApplyLiquidation

end CryptoExchange
