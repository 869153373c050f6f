import CryptoExchange.Sessions.History

/-!
# References between the tables

`create_order` and `close_position` each commit an order with its trade, in one unit of work, and
`create_order` a position with the account that it read. The tables stay in step with each other,
whatever the handlers do at the same time:

* `Order.terms`, `Trade.terms`: what an order and its trade have in common. They never change, and
  nor do a position's and an account's `owner`: `flush_fixed` is what a unit of work adds.
* `Db.Sound`: the trades are the trades of the orders, row by row, and every order and position has
  its user, and a position its account.
* `references_kept`: every state of a run is sound. A handler knows the user and the account that it
  found (`Task.Knows`), and nobody takes them away (`Db.Later`).
-/

namespace CryptoExchange

open Lib Db

variable {cfg : Config} {c : Column} {db db' : Db}

/-- What an order and its trade have in common. -/
structure Terms where
  orderId : ℕ
  userId : ℤ
  symbol : String
  side : Side
  size : ℚ
  price : ℚ

def Order.terms (o : Order) : Terms := ⟨o.id, o.userId, o.symbol, o.side, o.size, o.price⟩

def Trade.terms (t : Trade) : Terms := ⟨t.orderId, t.userId, t.symbol, t.side, t.size, t.price⟩

/-- The account and the user. -/
def Position.owner (p : Position) : ℕ × ℤ := (p.accountId, p.userId)

def Account.owner (a : Account) : ℕ × ℤ := (a.id, a.userId)

namespace Write

/-- The terms of an order that the statement inserts. -/
def orderTerms (c : Column) : Write → List Terms
  | .insertOrder o => [(storeOrder c o).terms]
  | _ => []

def tradeTerms (c : Column) : Write → List Terms
  | .insertTrade t => [(storeTrade c t).terms]
  | _ => []

def positionOwner : Write → List (ℕ × ℤ)
  | .insertPosition p => [p.owner]
  | _ => []

def accountOwner : Write → List (ℕ × ℤ)
  | .insertAccount a => [a.owner]
  | _ => []

end Write

/-- `db'` has the rows of `db`, and those that the statements insert. -/
structure Gained (c : Column) (ws : List Write) (db db' : Db) : Prop where
  users : db'.users = db.users
  orders : db'.orders.map Order.terms = db.orders.map Order.terms ++ ws.flatMap (Write.orderTerms c)
  trades : db'.trades.map Trade.terms = db.trades.map Trade.terms ++ ws.flatMap (Write.tradeTerms c)
  positions : db'.positions.map Position.owner =
    db.positions.map Position.owner ++ ws.flatMap Write.positionOwner
  accounts : db'.accounts.map Account.owner =
    db.accounts.map Account.owner ++ ws.flatMap Write.accountOwner

theorem gained_nil (db : Db) : Gained c [] db db := by
  constructor <;> simp

/-- A statement that inserts nothing keeps every row. -/
theorem Gained.of_kept {w : Write} (hw : w.orderTerms c = [] ∧ w.tradeTerms c = [] ∧
      w.positionOwner = [] ∧ w.accountOwner = [])
    (hu : db'.users = db.users) (ho : db'.orders.map Order.terms = db.orders.map Order.terms)
    (ht : db'.trades.map Trade.terms = db.trades.map Trade.terms)
    (hp : db'.positions.map Position.owner = db.positions.map Position.owner)
    (ha : db'.accounts.map Account.owner = db.accounts.map Account.owner) : Gained c [w] db db' := by
  obtain ⟨e₁, e₂, e₃, e₄⟩ := hw
  refine ⟨hu, ?_, ?_, ?_, ?_⟩
  · rw [List.flatMap_singleton, e₁, List.append_nil, ho]
  · rw [List.flatMap_singleton, e₂, List.append_nil, ht]
  · rw [List.flatMap_singleton, e₃, List.append_nil, hp]
  · rw [List.flatMap_singleton, e₄, List.append_nil, ha]

theorem write_gained {w : Write} (h : db.write c w = some db') : Gained c [w] db db' := by
  cases w with
  | insertAccount a =>
    rw [← flush_single] at h
    obtain ⟨-, rfl⟩ := flush_insertAccount h
    constructor <;> simp [Write.orderTerms, Write.tradeTerms, Write.positionOwner,
      Write.accountOwner, Account.owner, storeAccount]
  | insertOrder o =>
    rw [← flush_single] at h
    obtain ⟨-, rfl⟩ := flush_insertOrder h
    constructor <;> simp [Write.orderTerms, Write.tradeTerms, Write.positionOwner,
      Write.accountOwner]
  | insertPosition p =>
    rw [← flush_single] at h
    obtain ⟨-, rfl⟩ := flush_insertPosition h
    constructor <;> simp [Write.orderTerms, Write.tradeTerms, Write.positionOwner,
      Write.accountOwner, Position.owner, storePosition]
  | insertTrade t =>
    rw [← flush_single] at h
    obtain ⟨-, rfl⟩ := flush_insertTrade h
    constructor <;> simp [Write.orderTerms, Write.tradeTerms, Write.positionOwner,
      Write.accountOwner]
  | setBalance id v | setMarginUsed id v =>
    cases h
    refine .of_kept ⟨rfl, rfl, rfl, rfl⟩ rfl rfl rfl rfl ?_
    refine map_modify Account.owner (fun _ => ?_) _
    rfl
  | setStatus id s =>
    cases h
    refine .of_kept ⟨rfl, rfl, rfl, rfl⟩ rfl ?_ rfl rfl rfl
    refine map_modify Order.terms (fun _ => ?_) _
    rfl
  | setQuantity id v | setEntryPrice id v | setNotional id v | setMargin id v | setLiquidated id v
  | setMarginType id v =>
    cases h
    refine .of_kept ⟨rfl, rfl, rfl, rfl⟩ rfl rfl rfl ?_ rfl
    refine map_modify Position.owner (fun _ => ?_) _
    rfl

/-- **Flush.** A unit of work keeps the fixed columns of all rows, and adds its rows behind them. -/
theorem flush_gained {ws : List Write} (h : db.flush c ws = some db') : Gained c ws db db' := by
  induction ws generalizing db with
  | nil => cases h; exact gained_nil _
  | cons w ws ih =>
    obtain ⟨db₁, h₁, h₂⟩ := Option.bind_eq_some_iff.mp h
    have first := write_gained h₁
    have rest := ih h₂
    refine ⟨rest.users.trans first.users, ?_, ?_, ?_, ?_⟩
    · rw [rest.orders, first.orders, List.flatMap_singleton, List.flatMap_cons, List.append_assoc]
    · rw [rest.trades, first.trades, List.flatMap_singleton, List.flatMap_cons, List.append_assoc]
    · rw [rest.positions, first.positions, List.flatMap_singleton, List.flatMap_cons,
        List.append_assoc]
    · rw [rest.accounts, first.accounts, List.flatMap_singleton, List.flatMap_cons,
        List.append_assoc]

/-! ## What is referred to -/

/-- The user is in the tables. -/
def HasUser (db : Db) (userId : ℤ) : Prop := ∃ u ∈ db.users, u.id = userId

/-- The orders, trades, positions and accounts refer to each other as they should. -/
structure Db.Sound (db : Db) : Prop where
  /-- The `n`th trade is that of the `n`th order. -/
  paired : db.trades.map Trade.terms = db.orders.map Order.terms
  orderUsers : ∀ o ∈ db.orders, HasUser db o.userId
  positionUsers : ∀ p ∈ db.positions, HasUser db p.userId
  positionAccounts : ∀ p ∈ db.positions, p.owner ∈ db.accounts.map Account.owner

theorem HasUser.later {userId : ℤ} (h : HasUser db userId) (hu : db'.users = db.users) :
    HasUser db' userId := by
  unfold HasUser
  rw [hu]
  exact h

/-- A trade is that of an order in the tables. -/
theorem Db.Sound.order (h : db.Sound) {t : Trade} (ht : t ∈ db.trades) :
    ∃ o ∈ db.orders, o.terms = t.terms := by
  have hmem := List.mem_map_of_mem (f := Trade.terms) ht
  rw [h.paired] at hmem
  exact List.mem_map.mp hmem

/-- A unit of work whose orders have their trades, and whose rows have users and accounts. -/
theorem Db.Sound.gained (h : db.Sound) {ws : List Write} (ha : Gained c ws db db')
    (hpaired : ws.flatMap (Write.tradeTerms c) = ws.flatMap (Write.orderTerms c))
    (horders : ∀ x ∈ ws.flatMap (Write.orderTerms c), HasUser db x.userId)
    (hpositions : ∀ x ∈ ws.flatMap Write.positionOwner, HasUser db x.2 ∧
      x ∈ db.accounts.map Account.owner ++ ws.flatMap Write.accountOwner) : db'.Sound where
  paired := by rw [ha.trades, ha.orders, h.paired, hpaired]
  orderUsers o ho := by
    have hmem := List.mem_map_of_mem (f := Order.terms) ho
    rw [ha.orders, List.mem_append] at hmem
    refine HasUser.later ?_ ha.users
    rcases hmem with hmem | hmem
    · obtain ⟨o', ho', e⟩ := List.mem_map.mp hmem
      have hu := h.orderUsers o' ho'
      rw [show o'.userId = o.userId from congrArg Terms.userId e] at hu
      exact hu
    · exact horders _ hmem
  positionUsers p hp := by
    have hmem := List.mem_map_of_mem (f := Position.owner) hp
    rw [ha.positions, List.mem_append] at hmem
    refine HasUser.later ?_ ha.users
    rcases hmem with hmem | hmem
    · obtain ⟨p', hp', e⟩ := List.mem_map.mp hmem
      have hu := h.positionUsers p' hp'
      rw [show p'.userId = p.userId from congrArg Prod.snd e] at hu
      exact hu
    · exact (hpositions _ hmem).1
  positionAccounts p hp := by
    have hmem := List.mem_map_of_mem (f := Position.owner) hp
    rw [ha.positions, List.mem_append] at hmem
    rw [ha.accounts]
    rcases hmem with hmem | hmem
    · obtain ⟨p', hp', e⟩ := List.mem_map.mp hmem
      rw [← e]
      exact List.mem_append_left _ (h.positionAccounts p' hp')
    · exact (hpositions _ hmem).2

/-- The statement inserts no row. -/
theorem Write.Moves.adds {w : Write} (h : w.Moves) : w.orderTerms c = [] ∧ w.tradeTerms c = [] ∧
    w.positionOwner = [] ∧ w.accountOwner = [] := by
  cases w with
  | insertAccount | insertOrder | insertPosition | insertTrade | setStatus => exact h.elim
  | _ => exact ⟨rfl, rfl, rfl, rfl⟩

theorem flatMap_of_moves {α : Type} {f : Write → List α} (hf : ∀ w : Write, w.Moves → f w = [])
    {ws : List Write} (h : ∀ w ∈ ws, w.Moves) : ws.flatMap f = [] :=
  List.flatMap_eq_nil_iff.mpr fun w hw => hf w (h w hw)

/-- A unit of work that inserts no row but perhaps an account. -/
theorem Db.Sound.moved (h : db.Sound) {o : List Write} {ws : List Write}
    (ho : ∀ w ∈ o, ∃ a, w = .insertAccount a) (hws : ∀ w ∈ ws, w.Moves)
    (hf : db.flush c (o ++ ws) = some db') : db'.Sound := by
  have hnone : ∀ {α : Type} (f : Write → List α), (∀ w : Write, w.Moves → f w = []) →
      (∀ a, f (.insertAccount a) = []) → (o ++ ws).flatMap f = [] := by
    intro α f hmoves hinsert
    rw [List.flatMap_append, flatMap_of_moves hmoves hws, List.append_nil]
    refine List.flatMap_eq_nil_iff.mpr fun w hw => ?_
    obtain ⟨a, rfl⟩ := ho w hw
    exact hinsert a
  have orders := hnone (Write.orderTerms c) (fun w hw => hw.adds.1) fun _ => rfl
  have trades := hnone (Write.tradeTerms c) (fun w hw => hw.adds.2.1) fun _ => rfl
  have positions := hnone Write.positionOwner (fun w hw => (hw.adds (c := c)).2.2.1) fun _ => rfl
  refine h.gained (flush_gained hf) (trades.trans orders.symm) ?_ ?_
  · rw [orders]
    exact List.forall_mem_nil _
  · rw [positions]
    exact List.forall_mem_nil _

theorem opened_insert (o : OpenAccount) : ∀ w ∈ o.writes, ∃ a, w = .insertAccount a := by
  intro w hw
  unfold OpenAccount.writes at hw
  split at hw
  · exact ⟨_, List.mem_singleton.mp hw⟩
  · cases hw

/-! ## What a handler knows -/

/-- An account of the user, which is in the tables or will be inserted. -/
structure OpenAccount.Owned (db : Db) (o : OpenAccount) (userId : ℤ) : Prop where
  userId : o.account.userId = userId
  account : o.fresh = true ∨ o.account.owner ∈ db.accounts.map Account.owner

structure CreateOrder.Loaded.Known (db : Db) (s : CreateOrder.Loaded) : Prop where
  user : HasUser db s.payload.userId
  opened : s.opened.Owned db s.payload.userId

def CreateOrder.Phase.Knows (db : Db) : CreateOrder.Phase cfg → Prop
  | .selectUser _ => True
  | .getAccount payload _ _ => HasUser db payload.userId
  | .getPrice s | .userExposure s _ | .globalExposure s _ _ => s.Known db
  | .newOrder s | .flushOrder s _ => s.toLoaded.Known db
  | .redisSet s _ | .selectPosition s | .commit s _ | .refresh s => s.toLoaded.Known db

def ClosePosition.Phase.Knows (db : Db) : ClosePosition.Phase → Prop
  | .selectPosition _ _ => True
  | .getPrice s | .reduceOnly s _ | .selectAccount s _ | .flushOrder s _ _ | .commit s _ _ _ =>
    HasUser db s.userId

def Task.Knows (db : Db) : Task cfg → Prop
  | .createOrder p => p.Knows db
  | .closePosition p => p.Knows db
  | _ => True

/-- The users are the same, and no account goes. -/
structure Db.Kept (db db' : Db) : Prop where
  users : db'.users = db.users
  accounts : db.accounts.map Account.owner ⊆ db'.accounts.map Account.owner

theorem Gained.kept {ws : List Write} (h : Gained c ws db db') : db.Kept db' :=
  ⟨h.users, h.accounts ▸ List.subset_append_left _ _⟩

theorem CreateOrder.Loaded.Known.kept {s : CreateOrder.Loaded} (h : s.Known db)
    (hk : db.Kept db') : s.Known db' where
  user := h.user.later hk.users
  opened := ⟨h.opened.userId, h.opened.account.imp_right fun hm => hk.accounts hm⟩

theorem Task.Knows.kept {t : Task cfg} (h : t.Knows db) (hk : db.Kept db') : t.Knows db' := by
  cases t with
  | createOrder p =>
    cases p with
    | selectUser payload => trivial
    | getAccount payload user q => exact HasUser.later h hk.users
    | _ => exact CreateOrder.Loaded.Known.kept h hk
  | closePosition p =>
    cases p with
    | selectPosition userId symbol => trivial
    | _ => exact HasUser.later h hk.users
  | _ => trivial

theorem GetAccount.step_owned {w : World} {a : Answer} {userId : ℤ} {p : GetAccount}
    {o : OpenAccount} (h : p.step c userId w a = .done (.ok o)) : o.Owned w.db userId := by
  cases p with
  | select =>
    simp only [GetAccount.step] at h
    split at h
    · cases h
    split at h
    · cases h
    · rename_i account hs
      cases h
      obtain ⟨hmem, hu⟩ := selectAccountOf_eq (scalarOneOrNone_some hs)
      exact ⟨hu, .inr (List.mem_map_of_mem hmem)⟩
    · cases h
  | flush =>
    simp only [GetAccount.step] at h
    split at h
    · cases h
    · cases h
      exact ⟨rfl, .inl rfl⟩

/-! ## Units of work -/

/-- The rows that `create_order` inserts. -/
theorem CreateOrder.writes_flatMap {α : Type} {f : Write → List α}
    (hf : ∀ w : Write, w.Moves → f w = []) (s : CreateOrder.Placed cfg)
    (position : Option Position) (i t : ℕ) :
    (s.writes position i t).flatMap f = s.opened.writes.flatMap f ++ f (.insertOrder s.order) ++
      (if position.isSome then [] else f (.insertPosition (s.position i))) ++
      f (.insertTrade (s.trade t)) := by
  have haccount := flatMap_of_moves hf (moves_updateAccount s.account s.reserved)
  unfold CreateOrder.Placed.writes
  cases position with
  | none => simp [List.flatMap_append, haccount]
  | some p =>
    have hposition : (updatePosition p (s.added p)).flatMap f = [] :=
      flatMap_of_moves hf (moves_updatePosition (.inl rfl))
    simp [List.flatMap_append, haccount, hposition]

theorem ClosePosition.writes_flatMap {α : Type} {f : Write → List α}
    (hf : ∀ w : Write, w.Moves → f w = []) (s : ClosePosition.Loaded) (closePrice : PyFloat)
    (account : Option Account) (o t : ℕ) :
    (s.writes closePrice account o t).flatMap f =
      f (.insertOrder (s.order o closePrice)) ++ f (.insertTrade (s.trade t o closePrice)) := by
  have hclosing := flatMap_of_moves hf (ClosePosition.moves_closing s account)
  simp [ClosePosition.Loaded.writes, List.flatMap_append, hclosing]

theorem OpenAccount.writes_flatMap {α : Type} {f : Write → List α}
    (hf : ∀ a, f (.insertAccount a) = []) (o : OpenAccount) : o.writes.flatMap f = [] := by
  refine List.flatMap_eq_nil_iff.mpr fun w hw => ?_
  obtain ⟨a, rfl⟩ := opened_insert o w hw
  exact hf a

/-- The account that `create_order` gives to a position is there, or inserted before it. -/
theorem OpenAccount.Owned.mem {o : OpenAccount} {userId : ℤ} (h : o.Owned db userId)
    {ws : List Write} (hws : o.writes ⊆ ws) : (o.account.id, userId) ∈
      db.accounts.map Account.owner ++ ws.flatMap Write.accountOwner := by
  have howner : o.account.owner = (o.account.id, userId) := by rw [Account.owner, h.userId]
  rw [← howner]
  rcases h.account with hf | hm
  · refine List.mem_append_right _ (List.mem_flatMap.mpr ⟨.insertAccount o.account, hws ?_, ?_⟩)
    · rw [OpenAccount.writes, if_pos hf]
      exact List.mem_singleton_self _
    · exact List.mem_singleton_self _
  · exact List.mem_append_left _ hm

theorem CreateOrder.sound_commit {s : CreateOrder.Placed cfg} {position : Option Position}
    {i t : ℕ} (h : db.Sound) (hT : s.toLoaded.Known db)
    (hf : db.flush c (s.writes position i t) = some db') : db'.Sound := by
  have orders := CreateOrder.writes_flatMap (f := Write.orderTerms c) (fun _ hw => hw.adds.1)
    s position i t
  have trades := CreateOrder.writes_flatMap (f := Write.tradeTerms c) (fun _ hw => hw.adds.2.1)
    s position i t
  have positions := CreateOrder.writes_flatMap (f := Write.positionOwner)
    (fun _ hw => (hw.adds (c := c)).2.2.1) s position i t
  rw [OpenAccount.writes_flatMap (fun _ => rfl)] at orders trades positions
  simp only [Write.orderTerms, Write.tradeTerms, Write.positionOwner, ite_self, List.nil_append,
    List.append_nil] at orders trades positions
  refine h.gained (flush_gained hf) ?_ ?_ ?_
  · rw [orders, trades]
    rfl
  · rw [orders]
    exact List.forall_mem_singleton.mpr hT.user
  · rw [positions]
    intro x hx
    split at hx
    · cases hx
    · rw [List.mem_singleton.mp hx]
      refine ⟨hT.user, hT.opened.mem fun w hw => ?_⟩
      simp only [CreateOrder.Placed.writes, List.append_assoc]
      exact List.mem_append_left _ hw

theorem ClosePosition.sound_commit {s : ClosePosition.Loaded} {closePrice : PyFloat}
    {account : Option Account} {o t : ℕ} (h : db.Sound) (hT : HasUser db s.userId)
    (hf : db.flush c (s.writes closePrice account o t) = some db') : db'.Sound := by
  have orders := ClosePosition.writes_flatMap (f := Write.orderTerms c) (fun _ hw => hw.adds.1)
    s closePrice account o t
  have trades := ClosePosition.writes_flatMap (f := Write.tradeTerms c) (fun _ hw => hw.adds.2.1)
    s closePrice account o t
  have positions := ClosePosition.writes_flatMap (f := Write.positionOwner)
    (fun _ hw => (hw.adds (c := c)).2.2.1) s closePrice account o t
  simp only [Write.orderTerms, Write.tradeTerms, Write.positionOwner, List.nil_append,
    List.append_nil] at orders trades positions
  refine h.gained (flush_gained hf) ?_ ?_ ?_
  · rw [orders, trades]
    rfl
  · rw [orders]
    exact List.forall_mem_singleton.mpr hT
  · rw [positions]
    exact List.forall_mem_nil _

/-- A commit that only sets the status of an order. -/
theorem CancelOrder.sound_commit {order : Order} (h : db.Sound)
    (hf : db.flush c (updateOrder order (CancelOrder.canceled order)) = some db') : db'.Sound := by
  have hnone : ∀ {α : Type} (f : Write → List α), (∀ id s, f (.setStatus id s) = []) →
      (updateOrder order (CancelOrder.canceled order)).flatMap f = [] := fun f hset =>
    List.flatMap_eq_nil_iff.mpr fun w hw => (mem_dirty hw).2 ▸ hset _ _
  refine h.gained (flush_gained hf) ?_ ?_ ?_
  · rw [hnone _ fun _ _ => rfl, hnone _ fun _ _ => rfl]
  · rw [hnone _ fun _ _ => rfl]
    exact List.forall_mem_nil _
  · rw [hnone _ fun _ _ => rfl]
    exact List.forall_mem_nil _

/-! ## Steps and runs -/

variable {w w' : World} {a : Answer}

/-- **Step.** A step of a handler that knows what it does keeps the tables sound. -/
theorem Task.step_sound {t : Task cfg} {n : Next (Task cfg) (Except Failure Reply)}
    (h : w.db.Sound) (hT : t.Knows w.db) (hs : Task.step cfg c w a t = (w', n)) :
    w'.db.Sound ∧ w.db.Kept w'.db := by
  rcases Task.step_db hs with e | hf
  · rw [e]
    exact ⟨h, rfl, List.Subset.refl _⟩
  refine ⟨?_, (flush_gained hf).kept⟩
  have hnone : ∀ {db' : Db}, w.db.flush c [] = some db' → db'.Sound := fun e => by cases e; exact h
  cases t with
  | createOrder p =>
    cases p with
    | commit s position => exact CreateOrder.sound_commit h hT hf
    | _ => exact hnone hf
  | closePosition p =>
    cases p with
    | commit s closePrice account orderId => exact ClosePosition.sound_commit h hT hf
    | _ => exact hnone hf
  | cancelOrder p =>
    cases p with
    | commit order => exact CancelOrder.sound_commit h hf
    | _ => exact hnone hf
  | syncBalance p =>
    cases p with
    | commit o balance => exact h.moved (opened_insert o) (moves_updateAccount _ _) hf
    | _ => exact hnone hf
  | setMarginType p =>
    cases p with
    | commit r positions =>
      exact h.moved (o := []) (List.forall_mem_nil _) (SetMarginType.moves_writes r positions) hf
    | _ => exact hnone hf
  | applyLiquidation p =>
    cases p with
    | commit s =>
      exact h.moved (o := []) (List.forall_mem_nil _) (ApplyLiquidation.moves_writes s) hf
    | _ => exact hnone hf

theorem CreateOrder.step_knows {p q : CreateOrder.Phase cfg} (hT : p.Knows w.db)
    (hk : w.db.Kept w'.db) (hs : CreateOrder.step cfg c w a p = (w', .await q)) :
    q.Knows w'.db := by
  cases CreateOrder.step_cases hs with
  | user found =>
    have hmem : _ ∈ w.db.selectUser _ := scalarOneOrNone_some found ▸ List.mem_cons_self
    obtain ⟨hu, hid⟩ := List.mem_filter.mp hmem
    exact ⟨_, hu, by simpa using hid⟩
  | account => exact hT
  | opened step_eq => exact ⟨hT, GetAccount.step_owned step_eq⟩
  | committed => exact CreateOrder.Loaded.Known.kept hT hk
  | _ => exact hT

theorem ClosePosition.step_knows {p q : ClosePosition.Phase} (h : w.db.Sound) (hT : p.Knows w.db)
    (hs : ClosePosition.step cfg c w a p = (w', .await q)) : q.Knows w'.db := by
  cases ClosePosition.step_cases hs with
  | @found userId symbol position select_eq =>
    have hmem : position ∈ w.db.livePositionsOf userId (cfg.upper symbol) :=
      scalarOneOrNone_some select_eq ▸ List.mem_cons_self
    obtain ⟨hp, rfl, -⟩ := mem_livePositionsOf.mp hmem
    exact h.positionUsers position hp
  | _ => exact hT

theorem Task.step_knows {t t' : Task cfg} (h : w.db.Sound) (hT : t.Knows w.db)
    (hk : w.db.Kept w'.db) (hs : Task.step cfg c w a t = (w', .await t')) : t'.Knows w'.db := by
  cases t with
  | createOrder p =>
    rcases hp : CreateOrder.step cfg c w a p with ⟨w₁, n₁⟩
    rw [Task.step, hp] at hs
    obtain ⟨rfl, hn⟩ := Prod.mk.inj hs
    obtain ⟨q, rfl, rfl⟩ := Next.map_eq_await hn
    exact CreateOrder.step_knows hT hk hp
  | closePosition p =>
    rcases hp : ClosePosition.step cfg c w a p with ⟨w₁, n₁⟩
    rw [Task.step, hp] at hs
    obtain ⟨rfl, hn⟩ := Prod.mk.inj hs
    obtain ⟨q, rfl, rfl⟩ := Next.map_eq_await hn
    exact ClosePosition.step_knows h hT hp
  | cancelOrder p | syncBalance p | setMarginType p | applyLiquidation p =>
    obtain ⟨-, hn⟩ := Prod.mk.inj hs
    obtain ⟨q, -, rfl⟩ := Next.map_eq_await hn
    trivial

theorem sessions_sound {requests : List Request} :
    ((sessions cfg c (fun w => w.db.Sound) requests).restrict
      (StepMeets fun _ _ _ => True)).Inductive fun s =>
        s.1.db.Sound ∧ ∀ t, .await t ∈ s.2 → t.Knows s.1.db := by
  refine interleave_inductive (G := fun w : World => w.db.Sound)
    (T := fun w (t : Task cfg) => t.Knows w.db) (fun w ts hi => ⟨hi.2.1, fun t ht => ?_⟩)
    fun w a t w' n h hT _ hs => ?_
  · rw [hi.2.2] at ht
    obtain ⟨r, -, e⟩ := List.mem_map.mp ht
    cases e
    cases r <;> trivial
  · obtain ⟨h', hk⟩ := Task.step_sound h hT hs
    exact ⟨h', fun t' e => Task.step_knows h hT hk (e ▸ hs), fun q hq => hq.kept hk⟩

/-- **References.** Whatever the handlers do at the same time, in every state of a run the trades are
those of the orders, one for one, and every row has the user and the account that it names. -/
theorem references_kept {requests : List Request}
    {s : World × List (Next (Task cfg) (Except Failure Reply))}
    (h : (sessions cfg c (fun w => w.db.Sound) requests).Reach s) : s.1.db.Sound :=
  (sessions_sound.unrestrict fun _ _ _ _ => trivial).reach h |>.1

/-! ## An order and a close, interleaved -/

namespace Sample

/-- Two orders and a close of user 1. -/
def ordersAndClose : List Request :=
  [.createOrder (order "BTCUSDT" .buy 1 0), .createOrder (order "BTCUSDT" .buy 2 0),
    .closePosition 1 "BTCUSDT"]

def ordersAndCloseStart : World × List (Next (Task config) (Except Failure Reply)) :=
  (start 1000, ordersAndClose.map fun r => .await (r.start config))

/-- The second order commits while the close waits for the exchange. -/
def closeBetween : List (ℕ × Answer) :=
  let close : List Answer := [{}, { price := dec 1 2 }, { exchange := .ok {} }, {}, { rowId := 3 },
    { tradeId := 3 }]
  (accepted (dec 1 2) 1).map ((0, ·)) ++ (close.take 2).map ((2, ·)) ++
    (accepted (dec 1 2) 2).map ((1, ·)) ++ (close.drop 2).map ((2, ·))

theorem start_sound (balance : ℚ) : (start balance).db.Sound where
  paired := rfl
  orderUsers _ h := absurd h List.not_mem_nil
  positionUsers _ h := absurd h List.not_mem_nil
  positionAccounts _ h := absurd h List.not_mem_nil

end Sample

open Sample in
theorem references_kept_between :
    ∃ s, (sessions config (.numeric 8) (fun w => w.db.Sound) ordersAndClose).Reach s ∧
      s.2.all Next.isDone ∧ s.1.db.orders.length = 3 ∧ s.1.db.Sound := by
  let f := exec (Task.step config (.numeric 8)) fun _ _ _ => True
  have hrun : (closeBetween.foldlM f ordersAndCloseStart).map (fun s =>
      (s.2.all Next.isDone, s.1.db.orders.length)) = some (true, 3) := by decide +kernel
  obtain ⟨s, hs, h⟩ := Option.map_eq_some_iff.mp hrun
  obtain ⟨hdone, hlen⟩ := Prod.mk.inj h
  have hstart : (sessions config (.numeric 8) (fun w => w.db.Sound) ordersAndClose).init
      ordersAndCloseStart :=
    ⟨(seeded (by decide) (by decide +kernel)).valid, start_sound _, rfl⟩
  have hreach : (sessions config (.numeric 8) (fun w => w.db.Sound) ordersAndClose).Reach s :=
    .foldlM (f := f) (fun _ _ _ _ h => (exec_step h).2) (.init hstart) hs
  exact ⟨s, hreach, hdone, hlen, references_kept hreach⟩

end CryptoExchange
