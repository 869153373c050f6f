import CryptoExchange.Ledger.Cancel
import CryptoExchange.Lib.Evolved
import CryptoExchange.Sessions.Commits

/-!
# The ledger is append-only

The tables have no `DELETE`, and the handlers update few columns. Between any two moments of a run,
in which all handlers interleave, the rows of the first are still there:

* `Account.Later`, `Position.Later`, `Order.Later`: what the row of a later moment keeps. An order
  changes its status only, from one that is not `FILLED` to `CANCELED`, and a position that has ended
  is not live again. A trade does not change.
* `Db.Later`, `World.Later`: the same of the tables, and of what the exchange and the audit log got.
* `history_kept`: every later state of a run is later in this sense. That `cancel_order` commits
  only on an order that is not filled at that moment takes an invariant (`CancelOrder.Holds`): the
  row may have changed since the handler read it, but only as rows do.
-/

namespace CryptoExchange

open Lib Db

variable {cfg : Config} {c : Column} {db db' db'' : Db}

structure Account.Later (a a' : Account) : Prop where
  id : a'.id = a.id
  userId : a'.userId = a.userId

structure Position.Later (p p' : Position) : Prop where
  id : p'.id = p.id
  accountId : p'.accountId = p.accountId
  userId : p'.userId = p.userId
  symbol : p'.symbol = p.symbol
  liquidated : p.liquidated = true → p'.liquidated = true

/-- The row as it was, or canceled before it was filled. -/
def Order.Later (o o' : Order) : Prop :=
  o' = o ∨ o.status ≠ "FILLED" ∧ o' = CancelOrder.canceled o

theorem Account.Later.refl (a : Account) : a.Later a := ⟨rfl, rfl⟩

theorem Account.Later.trans {a a' a'' : Account} (h : a.Later a') (h' : a'.Later a'') :
    a.Later a'' :=
  ⟨h'.id.trans h.id, h'.userId.trans h.userId⟩

theorem Position.Later.refl (p : Position) : p.Later p := ⟨rfl, rfl, rfl, rfl, fun h => h⟩

theorem Position.Later.trans {p p' p'' : Position} (h : p.Later p') (h' : p'.Later p'') :
    p.Later p'' where
  id := h'.id.trans h.id
  accountId := h'.accountId.trans h.accountId
  userId := h'.userId.trans h.userId
  symbol := h'.symbol.trans h.symbol
  liquidated hp := h'.liquidated (h.liquidated hp)

namespace Order.Later

variable {o o' o'' : Order}

theorem refl (o : Order) : o.Later o := .inl rfl

theorem trans (h : o.Later o') (h' : o'.Later o'') : o.Later o'' := by
  rcases h with rfl | ⟨hne, rfl⟩
  · exact h'
  · rcases h' with rfl | ⟨-, rfl⟩
    · exact .inr ⟨hne, rfl⟩
    · exact .inr ⟨hne, rfl⟩

theorem id (h : o.Later o') : o'.id = o.id := by
  rcases h with rfl | ⟨-, rfl⟩ <;> rfl

theorem not_filled (h : o.Later o') (hne : o.status ≠ "FILLED") : o'.status ≠ "FILLED" := by
  rcases h with rfl | ⟨-, rfl⟩
  · exact hne
  · simp [CancelOrder.canceled]

/-- A filled order, and a canceled one, stay as they are. -/
theorem eq_of_final (h : o.Later o') (hs : o.status = "FILLED" ∨ o.status = "CANCELED") :
    o' = o := by
  rcases h with rfl | ⟨hne, rfl⟩
  · rfl
  · have hc := hs.resolve_left hne
    rw [CancelOrder.canceled, ← hc]

end Order.Later

/-- The tables of a later moment. -/
structure Db.Later (db db' : Db) : Prop where
  users : db'.users = db.users
  accounts : Evolved Account.Later db.accounts db'.accounts
  positions : Evolved Position.Later db.positions db'.positions
  orders : Evolved Order.Later db.orders db'.orders
  trades : db.trades <+: db'.trades

theorem Db.Later.refl (db : Db) : db.Later db where
  users := rfl
  accounts := .refl Account.Later.refl _
  positions := .refl Position.Later.refl _
  orders := .refl Order.Later.refl _
  trades := List.prefix_rfl

theorem Db.Later.trans (h : db.Later db') (h' : db'.Later db'') : db.Later db'' where
  users := h'.users.trans h.users
  accounts := h.accounts.trans (fun _ _ _ => Account.Later.trans) h'.accounts
  positions := h.positions.trans (fun _ _ _ => Position.Later.trans) h'.positions
  orders := h.orders.trans (fun _ _ _ => Order.Later.trans) h'.orders
  trades := h.trades.trans h'.trades

/-! ## Statements -/

/-- The statement inserts a row, or moves an account or a position forward. -/
def Write.Forward (w : Write) : Prop :=
  w.Moves ∨ match w with
    | .insertAccount _ | .insertOrder _ | .insertPosition _ | .insertTrade _ => True
    | _ => False

theorem later_modifyAccount (id : ℕ) {f : Account → Account} (hf : ∀ a, Account.Later a (f a)) :
    db.Later (db.modifyAccount id f) :=
  { Later.refl db with accounts := evolved_modify Account.Later.refl fun a _ _ => hf a }

theorem later_modifyPosition (id : ℕ) {f : Position → Position}
    (hf : ∀ p, Position.Later p (f p)) :
    db.Later (db.modifyPosition id f) :=
  { Later.refl db with positions := evolved_modify Position.Later.refl fun p _ _ => hf p }

/-- A statement that moves forward leads to a later moment. -/
theorem Db.Later.write {w : Write} (hw : w.Forward) (h : db.write c w = some db') :
    db.Later db' := by
  cases w with
  | insertAccount a =>
    rw [← flush_single] at h
    obtain ⟨-, rfl⟩ := flush_insertAccount h
    exact { Later.refl db with accounts := evolved_append Account.Later.refl _ _ }
  | insertOrder o =>
    rw [← flush_single] at h
    obtain ⟨-, rfl⟩ := flush_insertOrder h
    exact { Later.refl db with orders := evolved_append Order.Later.refl _ _ }
  | insertPosition p =>
    rw [← flush_single] at h
    obtain ⟨-, rfl⟩ := flush_insertPosition h
    exact { Later.refl db with positions := evolved_append Position.Later.refl _ _ }
  | insertTrade t =>
    rw [← flush_single] at h
    obtain ⟨-, rfl⟩ := flush_insertTrade h
    exact { Later.refl db with trades := List.prefix_append _ _ }
  | setBalance id v | setMarginUsed id v =>
    cases h
    exact later_modifyAccount id fun a => ⟨rfl, rfl⟩
  | setQuantity id v | setEntryPrice id v | setNotional id v | setMargin id v | setMarginType id v =>
    cases h
    exact later_modifyPosition id fun p => ⟨rfl, rfl, rfl, rfl, fun h => h⟩
  | setLiquidated id v =>
    obtain rfl : v = true := by simpa [Write.Forward, Write.Moves] using hw
    cases h
    exact later_modifyPosition id fun p => ⟨rfl, rfl, rfl, rfl, fun _ => rfl⟩
  | setStatus id s => simp [Write.Forward, Write.Moves] at hw

theorem Db.Later.flush {ws : List Write} (hws : ∀ w ∈ ws, w.Forward)
    (h : db.flush c ws = some db') : db.Later db' := by
  induction ws generalizing db with
  | nil => cases h; exact .refl _
  | cons w ws ih =>
    obtain ⟨db₁, h₁, h₂⟩ := Option.bind_eq_some_iff.mp h
    exact (Db.Later.write (hws w List.mem_cons_self) h₁).trans
      (ih (fun x hx => hws x (List.mem_cons_of_mem _ hx)) h₂)

/-! ## Handlers -/

theorem forward_opened (o : OpenAccount) : ∀ x ∈ o.writes, x.Forward := by
  intro x hx
  unfold OpenAccount.writes at hx
  split at hx
  · rw [List.mem_singleton.mp hx]
    exact .inr trivial
  · cases hx

theorem CreateOrder.forward_writes (s : CreateOrder.Placed cfg) (position : Option Position)
    (i t : ℕ) : ∀ x ∈ s.writes position i t, x.Forward := by
  have hinsert : ∀ w : Write, w.Forward → ∀ x ∈ [w], x.Forward := fun w hw =>
    List.forall_mem_singleton.mpr hw
  have hrest : ∀ ws : List Write, (∀ x ∈ ws, x.Forward) → ∀ x ∈ s.opened.writes ++
      [.insertOrder s.order] ++ updateAccount s.account s.reserved ++ ws ++
      [.insertTrade (s.trade t)], x.Forward := by
    intro ws hws
    refine List.forall_mem_append.mpr ⟨List.forall_mem_append.mpr ⟨List.forall_mem_append.mpr
      ⟨List.forall_mem_append.mpr ⟨forward_opened _, hinsert _ (.inr trivial)⟩, fun x hx => ?_⟩,
      hws⟩, hinsert _ (.inr trivial)⟩
    exact .inl (moves_updateAccount _ _ x hx)
  cases position with
  | none => exact hrest _ (hinsert _ (.inr trivial))
  | some p =>
    have hmoves : ∀ x ∈ updatePosition p (s.added p), x.Moves := moves_updatePosition (.inl rfl)
    exact hrest _ fun x hx => .inl (hmoves x hx)

theorem ClosePosition.forward_writes (s : ClosePosition.Loaded) (closePrice : PyFloat)
    (account : Option Account) (o t : ℕ) : ∀ x ∈ s.writes closePrice account o t, x.Forward := by
  refine List.forall_mem_append.mpr ⟨List.forall_mem_append.mpr ⟨fun x hx => ?_, ?_⟩, ?_⟩
  · exact .inl (ClosePosition.moves_closing s account x hx)
  · exact List.forall_mem_singleton.mpr (.inr trivial)
  · exact List.forall_mem_singleton.mpr (.inr trivial)

/-- What `cancel_order` holds on to: a row that is as it was read, or has moved forward since, from
a status that was not `FILLED`. -/
def CancelOrder.Holds (db : Db) (order : Order) : Prop :=
  order.status ≠ "FILLED" ∧ ∃ o ∈ db.orders, order.Later o

def CancelOrder.Phase.Holds (db : Db) : CancelOrder.Phase → Prop
  | .selectOrder _ _ => True
  | .redisGet order | .cancelOrder order _ | .commit order | .refresh order =>
    CancelOrder.Holds db order

def Task.Holds (db : Db) : Task cfg → Prop
  | .cancelOrder p => p.Holds db
  | _ => True

theorem CancelOrder.Holds.later {order : Order} (h : CancelOrder.Holds db order)
    (hl : db.Later db') : CancelOrder.Holds db' order := by
  obtain ⟨hne, o, ho, hlo⟩ := h
  obtain ⟨o', ho', hlo'⟩ := hl.orders.mem ho
  exact ⟨hne, o', ho', hlo.trans hlo'⟩

theorem Task.Holds.later {t : Task cfg} (h : t.Holds db) (hl : db.Later db') : t.Holds db' := by
  cases t with
  | cancelOrder p =>
    cases p with
    | selectOrder orderId userId => trivial
    | redisGet order | cancelOrder order x | commit order | refresh order =>
      exact CancelOrder.Holds.later h hl
  | _ => trivial

/-- The commit of `cancel_order`: every row with the order's id is not filled. -/
theorem CancelOrder.Holds.commit {order : Order} (h : CancelOrder.Holds db order)
    (hv : db.Valid c) (hf : db.flush c (updateOrder order (CancelOrder.canceled order)) = some db') :
    db.Later db' := by
  obtain ⟨hne, o, ho, hlo⟩ := h
  rw [flush_updateOrder] at hf
  cases hf
  refine { Later.refl db with orders := evolved_modify Order.Later.refl fun x hx e => ?_ }
  obtain rfl := hv.orders.keyed.eq_of_key hx ho (e.trans hlo.id.symm)
  unfold patch
  split
  · exact .refl _
  · exact .inr ⟨hlo.not_filled hne, rfl⟩

/-- The statements of a unit of work move forward, but for the commit of `cancel_order`. -/
theorem Task.forward_unitOfWork (a : Answer) (t : Task cfg) :
    (∀ x ∈ t.unitOfWork a, x.Forward) ∨ ∃ order, t = .cancelOrder (.commit order) := by
  cases t with
  | createOrder p =>
    cases p with
    | commit s position => exact .inl (CreateOrder.forward_writes s position _ _)
    | _ => exact .inl (List.forall_mem_nil _)
  | closePosition p =>
    cases p with
    | commit s closePrice account orderId =>
      exact .inl (ClosePosition.forward_writes s closePrice account orderId _)
    | _ => exact .inl (List.forall_mem_nil _)
  | cancelOrder p =>
    cases p with
    | commit order => exact .inr ⟨order, rfl⟩
    | _ => exact .inl (List.forall_mem_nil _)
  | syncBalance p =>
    cases p with
    | commit o balance =>
      refine .inl (List.forall_mem_append.mpr ⟨forward_opened o, fun x hx => ?_⟩)
      exact .inl (moves_updateAccount _ _ x hx)
    | _ => exact .inl (List.forall_mem_nil _)
  | setMarginType p =>
    cases p with
    | commit r positions =>
      exact .inl fun x hx => .inl (SetMarginType.moves_writes r positions x hx)
    | _ => exact .inl (List.forall_mem_nil _)
  | applyLiquidation p =>
    cases p with
    | commit s => exact .inl fun x hx => .inl (ApplyLiquidation.moves_writes s x hx)
    | _ => exact .inl (List.forall_mem_nil _)

/-- **Step.** A step of any handler leads to a later moment of the tables. -/
theorem Task.step_later {w w' : World} {a : Answer} {t : Task cfg}
    {n : Next (Task cfg) (Except Failure Reply)} (hv : w.db.Valid c) (hT : t.Holds w.db)
    (h : Task.step cfg c w a t = (w', n)) : w.db.Later w'.db := by
  rcases Task.step_db h with e | hf
  · rw [e]
    exact .refl _
  rcases Task.forward_unitOfWork a t with hforward | ⟨order, rfl⟩
  · exact .flush hforward hf
  · exact CancelOrder.Holds.commit hT hv hf

/-- What a handler holds on to after a step. -/
theorem Task.step_holds {w w' : World} {a : Answer} {t t' : Task cfg} (hv : w.db.Valid c)
    (hT : t.Holds w.db) (h : Task.step cfg c w a t = (w', .await t')) : t'.Holds w'.db := by
  have hl := Task.step_later hv hT h
  cases t with
  | cancelOrder p =>
    rcases hs : CancelOrder.step cfg c w a p with ⟨w₁, n₁⟩
    rw [Task.step, hs] at h
    obtain ⟨rfl, hn⟩ := Prod.mk.inj h
    obtain ⟨q, rfl, rfl⟩ := Next.map_eq_await hn
    cases CancelOrder.step_cases hs with
    | found select_eq status_ne =>
      have hmem : _ ∈ w.db.orders.filter _ := scalarOneOrNone_some select_eq ▸ List.mem_cons_self
      exact ⟨status_ne, _, (List.mem_filter.mp hmem).1, .refl _⟩
    | uncached | cached | accepted => exact hT
    | committed => exact CancelOrder.Holds.later hT hl
  | createOrder p | closePosition p | syncBalance p | setMarginType p | applyLiquidation p =>
    obtain ⟨-, hn⟩ := Prod.mk.inj h
    obtain ⟨q, -, rfl⟩ := Next.map_eq_await hn
    trivial

/-- The world at a later moment. -/
structure World.Later (w w' : World) : Prop extends World.Extends w w' where
  db : w.db.Later w'.db

/-- The invariant of the run: the tables are valid, and every handler's row is there. -/
theorem sessions_holds {init : World → Prop} {requests : List Request} :
    ((sessions cfg c init requests).restrict (StepMeets fun _ _ _ => True)).Inductive fun s =>
      s.1.db.Valid c ∧ ∀ t, .await t ∈ s.2 → t.Holds s.1.db := by
  refine interleave_inductive (G := fun w : World => w.db.Valid c)
    (T := fun w (t : Task cfg) => t.Holds w.db) (fun w ts hi => ⟨hi.1, fun t ht => ?_⟩)
    fun w a t w' n hv hT _ hs => ?_
  · rw [hi.2.2] at ht
    obtain ⟨r, -, e⟩ := List.mem_map.mp ht
    cases e
    cases r <;> trivial
  · have hl := Task.step_later hv hT hs
    exact ⟨Task.step_valid hv hs, fun t' e => Task.step_holds hv hT (e ▸ hs),
      fun q hq => hq.later hl⟩

/-- **History.** Whatever the handlers do at the same time, the rows of every moment of a run are
still there at every later moment, and have changed only as `World.Later` says. -/
theorem history_kept {init : World → Prop} {requests : List Request}
    {s s' : World × List (Next (Task cfg) (Except Failure Reply))} {as : List (ℕ × Answer)}
    (hs : (sessions cfg c init requests).Reach s)
    (h : (sessions cfg c init requests).Run s as s') : s.1.Later s'.1 := by
  have hI : (sessions cfg c init requests).Inductive fun s =>
      s.1.db.Valid c ∧ ∀ t, .await t ∈ s.2 → t.Holds s.1.db :=
    sessions_holds.unrestrict fun _ _ _ _ => trivial
  refine Sys.Run.relates (Q := fun v v' : World × List _ => v.1.Later v'.1) hI
    (fun v => ⟨.refl _, .refl _⟩) (fun _ _ _ h₁ h₂ => ⟨h₁.toExtends.trans h₂.toExtends,
      h₁.db.trans h₂.db⟩) (fun v act v' hv hst => ?_) hs h
  obtain ⟨t, ht, rfl⟩ := hst
  have hT := hv.2 t (List.mem_of_getElem? ht)
  have hstep : Task.step cfg c v.1 act.2 t = (_, (Task.step cfg c v.1 act.2 t).2) := Prod.eta _
  exact ⟨Task.step_extends hstep, Task.step_later hv.1 hT hstep⟩

/-! ## A limit order, canceled -/

namespace Sample

/-- A limit order of user 1, and the cancellation of the order 1. -/
def orderAndCancel : List Request := [.createOrder limitOrder, .cancelOrder 1 1]

def orderAndCancelStart : World × List (Next (Task config) (Except Failure Reply)) :=
  (start 1000, orderAndCancel.map fun r => .await (r.start config))

end Sample

open Sample in
/-- The order is in the tables as `NEW`, and later as `CANCELED`. -/
theorem history_kept_canceled :
    ∃ s as s', (sessions config (.numeric 8) (fun _ => True) orderAndCancel).Reach s ∧
      (sessions config (.numeric 8) (fun _ => True) orderAndCancel).Run s as s' ∧
      s.1.db.orders.map Order.status = ["NEW"] ∧ s'.1.db.orders.map Order.status = ["CANCELED"] ∧
      s.1.Later s'.1 := by
  let f := exec (Task.step config (.numeric 8)) fun _ _ _ => True
  let cancel : List (ℕ × Answer) :=
    [{}, {}, { exchange := .ok {} }, {}, {}].map fun a : Answer => (1, a)
  have hrun : (((resting.map fun a => (0, a)).foldlM f orderAndCancelStart).bind fun s =>
      (cancel.foldlM f s).map fun s' => (s.1.db.orders.map Order.status,
        s'.1.db.orders.map Order.status)) = some (["NEW"], ["CANCELED"]) := by decide +kernel
  obtain ⟨s, hs, h⟩ := Option.bind_eq_some_iff.mp hrun
  obtain ⟨s', hs', h⟩ := Option.map_eq_some_iff.mp h
  obtain ⟨hnew, hcanceled⟩ := Prod.mk.inj h
  have hstart : (sessions config (.numeric 8) (fun _ => True) orderAndCancel).init
      orderAndCancelStart := ⟨(seeded (by decide) (by decide +kernel)).valid, trivial, rfl⟩
  have hf : ∀ s a s', f s a = some s' →
      (sessions config (.numeric 8) (fun _ => True) orderAndCancel).step s a s' :=
    fun _ _ _ h => (exec_step h).2
  have hreach : (sessions config (.numeric 8) (fun _ => True) orderAndCancel).Reach s :=
    .foldlM (f := f) (fun s a _ s' h => hf s a s' h) (.init hstart) hs
  have hlater : (sessions config (.numeric 8) (fun _ => True) orderAndCancel).Run s cancel s' :=
    .foldlM (f := f) (fun s a _ s' h => hf s a s' h) hs'
  exact ⟨s, cancel, s', hreach, hlater, hnew, hcanceled, history_kept hreach hlater⟩

end CryptoExchange
