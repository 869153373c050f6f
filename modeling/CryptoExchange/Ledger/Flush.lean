import CryptoExchange.Ledger.World

/-!
# Units of work

What a flush leaves in the tables.

* `flush_updateAccount`, `flush_updatePosition`: an update writes the columns that the session
  changed, and leaves the others as they are now in the table (`patchAccount`, `patchPosition`).
  For a row that is still as the session loaded it, this stores the session's row (`patch_self`).
* `Valid`: the keys are unique and every number fits its column. Each statement keeps this.
-/

namespace CryptoExchange

open Lib

variable {c : Column} {db db' : Db}

namespace Db

/-! ## Sequencing -/

@[simp] theorem flush_nil : flush c [] db = some db := rfl

theorem flush_append (ws ws' : List Write) :
    flush c (ws ++ ws') db = (flush c ws db).bind (flush c ws') := by
  induction ws generalizing db with
  | nil => rfl
  | cons w ws ih =>
    show (db.write c w).bind (flush c (ws ++ ws')) = _
    rw [flush]
    cases db.write c w with
    | none => rfl
    | some db₁ => exact ih

theorem flush_single (w : Write) : flush c [w] db = db.write c w := by
  rw [flush]
  cases db.write c w <;> rfl

/-! ## Updates -/

theorem mem_dirty {α : Type} [DecidableEq α] {old new : α} {w x : Write}
    (h : x ∈ dirty old new w) : new ≠ old ∧ x = w := by
  unfold dirty at h
  split at h
  · cases h
  · rename_i hne
    exact ⟨hne, List.mem_singleton.mp h⟩

theorem forall_dirty {α : Type} [DecidableEq α] {Q : Write → Prop} {old new : α} {w : Write}
    (h : new ≠ old → Q w) : ∀ x ∈ dirty old new w, Q x := by
  intro x hx
  obtain ⟨hne, rfl⟩ := mem_dirty hx
  exact h hne

theorem forall_updateAccount {Q : Write → Prop} {a a' : Account}
    (hbalance : ∀ v, Q (.setBalance a.id v)) (hmargin : ∀ v, Q (.setMarginUsed a.id v)) :
    ∀ x ∈ updateAccount a a', Q x :=
  List.forall_mem_append.mpr ⟨forall_dirty fun _ => hbalance _, forall_dirty fun _ => hmargin _⟩

theorem forall_updatePosition {Q : Write → Prop} {p p' : Position}
    (hset : ∀ v, Q (.setQuantity p.id v) ∧ Q (.setEntryPrice p.id v) ∧ Q (.setNotional p.id v) ∧
      Q (.setMargin p.id v)) (htype : ∀ v, Q (.setMarginType p.id v))
    (hliquidated : p'.liquidated ≠ p.liquidated → Q (.setLiquidated p.id p'.liquidated)) :
    ∀ x ∈ updatePosition p p', Q x := by
  simp only [updatePosition, List.forall_mem_append]
  exact ⟨⟨⟨⟨⟨forall_dirty fun _ => (hset _).1, forall_dirty fun _ => (hset _).2.1⟩,
    forall_dirty fun _ => (hset _).2.2.1⟩, forall_dirty fun _ => (hset _).2.2.2⟩,
    forall_dirty hliquidated⟩, forall_dirty fun _ => htype _⟩

/-- The column after an update of it from `old` to `new`, when the table has `now`. -/
def patch {α : Type} [DecidableEq α] (store : α → α) (old new now : α) : α :=
  if new = old then now else store new

theorem patch_self {α : Type} [DecidableEq α] {store : α → α} {old : α} (h : store old = old)
    (new : α) : patch store old new old = store new := by
  unfold patch
  split
  · rename_i e; rw [e, h]
  · rfl

theorem patch_id_self {α : Type} [DecidableEq α] (old new : α) : patch id old new old = new :=
  patch_self rfl new

def patchAccount (c : Column) (a a' now : Account) : Account :=
  { now with balance := patch c.store a.balance a'.balance now.balance
             marginUsed := patch c.store a.marginUsed a'.marginUsed now.marginUsed }

def patchPosition (c : Column) (p p' now : Position) : Position :=
  { now with quantity := patch c.store p.quantity p'.quantity now.quantity
             entryPrice := patch c.store p.entryPrice p'.entryPrice now.entryPrice
             notional := patch c.store p.notional p'.notional now.notional
             margin := patch c.store p.margin p'.margin now.margin
             liquidated := patch id p.liquidated p'.liquidated now.liquidated
             marginType := patch id p.marginType p'.marginType now.marginType }

theorem modifyAccount_modifyAccount {id : ℕ} {f g : Account → Account}
    (hf : ∀ a, (f a).id = a.id) :
    (db.modifyAccount id f).modifyAccount id g = db.modifyAccount id fun a => g (f a) := by
  simp only [modifyAccount, modify_modify hf]

theorem modifyPosition_modifyPosition {id : ℕ} {f g : Position → Position}
    (hf : ∀ p, (f p).id = p.id) :
    (db.modifyPosition id f).modifyPosition id g = db.modifyPosition id fun p => g (f p) := by
  simp only [modifyPosition, modify_modify hf]

theorem modifyAccount_id {id : ℕ} {f : Account → Account} (hf : ∀ a, f a = a) :
    db.modifyAccount id f = db := by
  simp only [modifyAccount, modify_eq_self fun x _ _ => hf x]

theorem modifyPosition_id {id : ℕ} {f : Position → Position} (hf : ∀ p, f p = p) :
    db.modifyPosition id f = db := by
  simp only [modifyPosition, modify_eq_self fun x _ _ => hf x]

/-- An update of one column of an account. -/
theorem flush_dirty_account {α : Type} [DecidableEq α] {old new : α} {w : Write} {id : ℕ}
    {f : Account → Account} (g : Account → Account)
    (hw : db.write c w = some (db.modifyAccount id f)) (hne : new ≠ old → f = g)
    (he : new = old → ∀ a, g a = a) :
    flush c (dirty old new w) db = some (db.modifyAccount id g) := by
  unfold dirty
  split
  · rename_i h; rw [modifyAccount_id (he h)]; rfl
  · rename_i h; rw [flush_single, hw, hne h]

/-- An update of one column of a position. -/
theorem flush_dirty_position {α : Type} [DecidableEq α] {old new : α} {w : Write} {id : ℕ}
    {f : Position → Position} (g : Position → Position)
    (hw : db.write c w = some (db.modifyPosition id f)) (hne : new ≠ old → f = g)
    (he : new = old → ∀ p, g p = p) :
    flush c (dirty old new w) db = some (db.modifyPosition id g) := by
  unfold dirty
  split
  · rename_i h; rw [modifyPosition_id (he h)]; rfl
  · rename_i h; rw [flush_single, hw, hne h]

theorem flush_updateAccount (a a' : Account) :
    flush c (updateAccount a a') db = some (db.modifyAccount a.id (patchAccount c a a')) := by
  have balance : ∀ db : Db, flush c (dirty a.balance a'.balance (.setBalance a.id a'.balance)) db =
      some (db.modifyAccount a.id fun now =>
        { now with balance := patch c.store a.balance a'.balance now.balance }) := fun db =>
    flush_dirty_account _ rfl (fun h => by simp [patch, h]) (fun h => by simp [patch, h])
  have marginUsed : ∀ db : Db,
      flush c (dirty a.marginUsed a'.marginUsed (.setMarginUsed a.id a'.marginUsed)) db =
      some (db.modifyAccount a.id fun now =>
        { now with marginUsed := patch c.store a.marginUsed a'.marginUsed now.marginUsed }) :=
    fun db =>
    flush_dirty_account _ rfl (fun h => by simp [patch, h]) (fun h => by simp [patch, h])
  rw [updateAccount, flush_append, balance, Option.bind_some, marginUsed,
    modifyAccount_modifyAccount]
  · rfl
  · intro a; rfl

theorem flush_updatePosition (p p' : Position) :
    flush c (updatePosition p p') db = some (db.modifyPosition p.id (patchPosition c p p')) := by
  have column : ∀ {α : Type} [DecidableEq α] (store : α → α) (old new : α) (w : Write)
      (get : Position → α) (set : α → Position → Position), (∀ q, set (get q) q = q) →
      (∀ db : Db, db.write c w = some (db.modifyPosition p.id (set (store new)))) →
      ∀ db : Db, flush c (dirty old new w) db =
        some (db.modifyPosition p.id fun q => set (patch store old new (get q)) q) := by
    intro α _ store old new w get set hset hw db
    refine flush_dirty_position _ (hw db) (fun h => ?_) (fun h q => ?_)
    · funext q; rw [patch, if_neg h]
    · rw [patch, if_pos h, hset]
  have quantity := column c.store p.quantity p'.quantity (.setQuantity p.id p'.quantity)
    Position.quantity (fun v q => { q with quantity := v }) (fun _ => rfl) fun _ => rfl
  have entryPrice := column c.store p.entryPrice p'.entryPrice (.setEntryPrice p.id p'.entryPrice)
    Position.entryPrice (fun v q => { q with entryPrice := v }) (fun _ => rfl) fun _ => rfl
  have notional := column c.store p.notional p'.notional (.setNotional p.id p'.notional)
    Position.notional (fun v q => { q with notional := v }) (fun _ => rfl) fun _ => rfl
  have margin := column c.store p.margin p'.margin (.setMargin p.id p'.margin)
    Position.margin (fun v q => { q with margin := v }) (fun _ => rfl) fun _ => rfl
  have liquidated := column id p.liquidated p'.liquidated (.setLiquidated p.id p'.liquidated)
    Position.liquidated (fun v q => { q with liquidated := v }) (fun _ => rfl) fun _ => rfl
  have marginType := column id p.marginType p'.marginType (.setMarginType p.id p'.marginType)
    Position.marginType (fun v q => { q with marginType := v }) (fun _ => rfl) fun _ => rfl
  simp only [updatePosition, flush_append, quantity, entryPrice, notional, margin, liquidated,
    marginType, Option.bind_some, modifyPosition_modifyPosition, implies_true]
  rfl

theorem flush_updateOrder (o o' : Order) :
    flush c (updateOrder o o') db = some (db.modifyOrder o.id fun now =>
      { now with status := patch id o.status o'.status now.status }) := by
  unfold updateOrder dirty
  split
  · rename_i h
    simp only [flush_nil, modifyOrder, patch, h, if_true]
    rw [modify_eq_self fun x _ _ => rfl]
  · rename_i h
    simp only [flush_single, write, patch, h, if_false, id]

end Db

/-! ## What the tables guarantee -/

def Account.Stored (c : Column) (a : Account) : Prop := c.Holds a.balance ∧ c.Holds a.marginUsed

def Position.Stored (c : Column) (p : Position) : Prop :=
  c.Holds p.quantity ∧ c.Holds p.entryPrice ∧ c.Holds p.notional ∧ c.Holds p.margin

def Order.Stored (c : Column) (o : Order) : Prop := c.Holds o.size ∧ c.Holds o.price

def Trade.Stored (c : Column) (t : Trade) : Prop :=
  c.Holds t.size ∧ c.Holds t.price ∧ c.Holds t.notional

instance (a : Account) : Decidable (a.Stored c) := inferInstanceAs (Decidable (_ ∧ _))

instance (p : Position) : Decidable (p.Stored c) := inferInstanceAs (Decidable (_ ∧ _))

instance (o : Order) : Decidable (o.Stored c) := inferInstanceAs (Decidable (_ ∧ _))

instance (t : Trade) : Decidable (t.Stored c) := inferInstanceAs (Decidable (_ ∧ _))

/-- The constraints of the tables: unique keys, and numbers that fit their columns. -/
structure Db.Valid (c : Column) (db : Db) : Prop where
  accounts : Table Account.id (Account.Stored c) db.accounts
  accountUsers : Keyed Account.userId db.accounts
  positions : Table Position.id (Position.Stored c) db.positions
  orders : Table Order.id (Order.Stored c) db.orders
  trades : Table Trade.id (Trade.Stored c) db.trades

namespace Db

theorem Valid.modifyAccount (h : db.Valid c) {id : ℕ} {f : Account → Account}
    (hid : ∀ a, (f a).id = a.id) (hu : ∀ a, (f a).userId = a.userId)
    (hf : ∀ a, a.Stored c → (f a).Stored c) : (db.modifyAccount id f).Valid c :=
  { h with
    accounts := h.accounts.modify hid hf
    accountUsers := h.accountUsers.modify hu }

theorem Valid.modifyPosition (h : db.Valid c) {id : ℕ} {f : Position → Position}
    (hid : ∀ p, (f p).id = p.id) (hf : ∀ p, p.Stored c → (f p).Stored c) :
    (db.modifyPosition id f).Valid c :=
  { h with positions := h.positions.modify hid hf }

/-- A statement keeps the constraints. -/
theorem Valid.write (h : db.Valid c) {w : Write} (hw : db.write c w = some db') :
    db'.Valid c := by
  cases w with
  | insertAccount a =>
    rw [Db.write] at hw
    split at hw
    · cases hw
    rename_i hn
    cases hw
    replace hn := not_or.mp hn |>.1
    simp only [List.any_eq_true, decide_eq_true_eq, not_exists, not_and, not_or] at hn
    exact { h with
      accounts := h.accounts.append (fun b hb => (hn b hb).1) ⟨c.idem _, c.idem _⟩
      accountUsers := h.accountUsers.append fun b hb => (hn b hb).2 }
  | setBalance id v =>
    cases hw
    exact h.modifyAccount (fun _ => rfl) (fun _ => rfl) fun a ha => ⟨c.idem _, ha.2⟩
  | setMarginUsed id v =>
    cases hw
    exact h.modifyAccount (fun _ => rfl) (fun _ => rfl) fun a ha => ⟨ha.1, c.idem _⟩
  | insertOrder o =>
    rw [Db.write] at hw
    split at hw
    · cases hw
    rename_i hn
    cases hw
    simp only [List.any_eq_true, decide_eq_true_eq, not_exists, not_and] at hn
    exact { h with orders := h.orders.append hn ⟨c.idem _, c.idem _⟩ }
  | setStatus id s =>
    cases hw
    exact { h with orders := h.orders.modify (fun _ => rfl) fun o ho => ho }
  | insertPosition p =>
    rw [Db.write] at hw
    split at hw
    · cases hw
    rename_i hn
    cases hw
    simp only [List.any_eq_true, decide_eq_true_eq, not_exists, not_and] at hn
    exact { h with
      positions := h.positions.append hn ⟨c.idem _, c.idem _, c.idem _, c.idem _⟩ }
  | setQuantity id v =>
    cases hw
    exact h.modifyPosition (fun _ => rfl) fun p hp => ⟨c.idem _, hp.2⟩
  | setEntryPrice id v =>
    cases hw
    exact h.modifyPosition (fun _ => rfl) fun p hp => ⟨hp.1, c.idem _, hp.2.2⟩
  | setNotional id v =>
    cases hw
    exact h.modifyPosition (fun _ => rfl) fun p hp => ⟨hp.1, hp.2.1, c.idem _, hp.2.2.2⟩
  | setMargin id v =>
    cases hw
    exact h.modifyPosition (fun _ => rfl) fun p hp => ⟨hp.1, hp.2.1, hp.2.2.1, c.idem _⟩
  | setLiquidated id v =>
    cases hw
    exact h.modifyPosition (fun _ => rfl) fun p hp => hp
  | setMarginType id t =>
    cases hw
    exact h.modifyPosition (fun _ => rfl) fun p hp => hp
  | insertTrade t =>
    rw [Db.write] at hw
    split at hw
    · cases hw
    rename_i hn
    cases hw
    simp only [List.any_eq_true, decide_eq_true_eq, not_exists, not_and] at hn
    exact { h with trades := h.trades.append hn ⟨c.idem _, c.idem _, c.idem _⟩ }

theorem Valid.flush (h : db.Valid c) {ws : List Write} (hw : db.flush c ws = some db') :
    db'.Valid c := by
  induction ws generalizing db with
  | nil => cases hw; exact h
  | cons w ws ih =>
    obtain ⟨db₁, h₁, h₂⟩ := Option.bind_eq_some_iff.mp hw
    exact ih (h.write h₁) h₂

/-- No statement concerns the users. -/
theorem write_users {w : Write} (h : db.write c w = some db') : db'.users = db.users := by
  cases w with
  | insertAccount a | insertOrder o | insertPosition p | insertTrade t =>
    rw [Db.write] at h
    split at h
    · cases h
    · cases h; rfl
  | _ => cases h; rfl

theorem flush_users {ws : List Write} (h : db.flush c ws = some db') : db'.users = db.users := by
  induction ws generalizing db with
  | nil => cases h; rfl
  | cons w ws ih =>
    obtain ⟨db₁, h₁, h₂⟩ := Option.bind_eq_some_iff.mp h
    exact (ih h₂).trans (write_users h₁)

/-! ## Updates of rows that are as loaded -/

/-- The account `a` stored in place of the row with its id. -/
def setAccount (c : Column) (db : Db) (a : Account) : Db :=
  db.modifyAccount a.id fun _ => storeAccount c a

/-- The position `p` stored in place of the row with its id. -/
def setPosition (c : Column) (db : Db) (p : Position) : Db :=
  db.modifyPosition p.id fun _ => storePosition c p

theorem patchAccount_self {a : Account} (a' : Account) (ha : a.Stored c) (hid : a'.id = a.id)
    (hu : a'.userId = a.userId) : patchAccount c a a' a = storeAccount c a' := by
  simp only [patchAccount, storeAccount, patch_self ha.1.store, patch_self ha.2.store, hid, hu]

theorem patchPosition_self {p p' : Position} (hp : p.Stored c) (hid : p'.id = p.id)
    (ha : p'.accountId = p.accountId) (hu : p'.userId = p.userId) (hs : p'.symbol = p.symbol) :
    patchPosition c p p' p = storePosition c p' := by
  simp only [patchPosition, storePosition, patch_self hp.1.store, patch_self hp.2.1.store,
    patch_self hp.2.2.1.store, patch_self hp.2.2.2.store, patch_id_self, hid, ha, hu, hs]

/-- A session's account that is still as loaded is stored whole. -/
theorem flush_setAccount (h : db.Valid c) {a : Account} (a' : Account) (ha : a ∈ db.accounts)
    (hid : a'.id = a.id) (hu : a'.userId = a.userId) :
    db.flush c (updateAccount a a') = some (db.setAccount c a') := by
  rw [flush_updateAccount, setAccount, hid]
  simp only [modifyAccount]
  have key : ∀ x ∈ db.accounts, x.id = a.id → patchAccount c a a' x = storeAccount c a' := by
    intro x hx e
    rw [h.accounts.keyed.eq_of_key hx ha e]
    exact patchAccount_self a' (h.accounts.rows a ha) hid hu
  rw [modify_congr key]

/-- A session's position that is still as loaded is stored whole. -/
theorem flush_setPosition (h : db.Valid c) {p : Position} (p' : Position) (hp : p ∈ db.positions)
    (hid : p'.id = p.id) (ha : p'.accountId = p.accountId) (hu : p'.userId = p.userId)
    (hs : p'.symbol = p.symbol) :
    db.flush c (updatePosition p p') = some (db.setPosition c p') := by
  rw [flush_updatePosition, setPosition, hid]
  simp only [modifyPosition]
  have key : ∀ x ∈ db.positions, x.id = p.id → patchPosition c p p' x = storePosition c p' := by
    intro x hx e
    rw [h.positions.keyed.eq_of_key hx hp e]
    exact patchPosition_self (h.positions.rows p hp) hid ha hu hs
  rw [modify_congr key]

/-! ## Inserts -/

theorem flush_insertAccount {a : Account} (h : db.flush c [.insertAccount a] = some db') :
    (∀ b ∈ db.accounts, b.id ≠ a.id ∧ b.userId ≠ a.userId) ∧
      db' = { db with accounts := db.accounts ++ [storeAccount c a] } := by
  rw [flush_single, write] at h
  split at h
  · cases h
  rename_i hn
  cases h
  replace hn := not_or.mp hn |>.1
  simp only [List.any_eq_true, decide_eq_true_eq, not_exists, not_and, not_or] at hn
  exact ⟨hn, rfl⟩

theorem flush_insertOrder {o : Order} (h : db.flush c [.insertOrder o] = some db') :
    (∀ b ∈ db.orders, b.id ≠ o.id) ∧
      db' = { db with orders := db.orders ++ [storeOrder c o] } := by
  rw [flush_single, write] at h
  split at h
  · cases h
  rename_i hn
  cases h
  simp only [List.any_eq_true, decide_eq_true_eq, not_exists, not_and] at hn
  exact ⟨hn, rfl⟩

theorem flush_insertPosition {p : Position} (h : db.flush c [.insertPosition p] = some db') :
    (∀ q ∈ db.positions, q.id ≠ p.id) ∧
      db' = { db with positions := db.positions ++ [storePosition c p] } := by
  rw [flush_single, write] at h
  split at h
  · cases h
  rename_i hn
  cases h
  simp only [List.any_eq_true, decide_eq_true_eq, not_exists, not_and] at hn
  exact ⟨hn, rfl⟩

theorem flush_insertTrade {t : Trade} (h : db.flush c [.insertTrade t] = some db') :
    (∀ b ∈ db.trades, b.id ≠ t.id) ∧
      db' = { db with trades := db.trades ++ [storeTrade c t] } := by
  rw [flush_single, write] at h
  split at h
  · cases h
  rename_i hn
  cases h
  simp only [List.any_eq_true, decide_eq_true_eq, not_exists, not_and] at hn
  exact ⟨hn, rfl⟩

/-! ## Inserts under fresh keys -/

theorem flush_insertAccount_fresh {a : Account} (h : ∀ b ∈ db.accounts, b.id ≠ a.id)
    (hu : ∀ b ∈ db.accounts, b.userId ≠ a.userId) (huser : ∃ u ∈ db.users, u.id = a.userId) :
    db.flush c [.insertAccount a] =
      some { db with accounts := db.accounts ++ [storeAccount c a] } := by
  rw [flush_single, write, if_neg]
  simpa using ⟨fun b hb => ⟨h b hb, hu b hb⟩, huser⟩

/-- An account of nobody is refused. -/
theorem flush_insertAccount_nobody {a : Account} (h : ∀ u ∈ db.users, u.id ≠ a.userId) :
    db.flush c [.insertAccount a] = none := by
  rw [flush_single, write, if_pos (.inr h)]

theorem flush_insertOrder_fresh {o : Order} (h : ∀ b ∈ db.orders, b.id ≠ o.id) :
    db.flush c [.insertOrder o] = some { db with orders := db.orders ++ [storeOrder c o] } := by
  rw [flush_single, write, if_neg]
  simpa using h

theorem flush_insertPosition_fresh {p : Position} (h : ∀ b ∈ db.positions, b.id ≠ p.id) :
    db.flush c [.insertPosition p] =
      some { db with positions := db.positions ++ [storePosition c p] } := by
  rw [flush_single, write, if_neg]
  simpa using h

theorem flush_insertTrade_fresh {t : Trade} (h : ∀ b ∈ db.trades, b.id ≠ t.id) :
    db.flush c [.insertTrade t] = some { db with trades := db.trades ++ [storeTrade c t] } := by
  rw [flush_single, write, if_neg]
  simpa using h

end Db

end CryptoExchange
