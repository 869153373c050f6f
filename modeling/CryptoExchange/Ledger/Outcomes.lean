import CryptoExchange.Ledger.Failures
import CryptoExchange.Ledger.Views

/-!
# What a call can do

For each call that changes rows: the condition on the tables under which it succeeds for some
answers to its calls, and without which no answers let it change a row. And the views: each of them
can be had.
-/

namespace CryptoExchange

open Lib Db

variable {cfg : Config} {c : Column} {db : Db}

theorem exchangeCall_ok {a : Answer} {reply : ExchangeOrder} (h : exchangeCall cfg a = .ok reply) :
    cfg.hasCredentials := by
  by_contra hcred
  rw [exchangeCall, if_neg hcred] at h
  cases h

theorem exchangeCall_accepts (hcred : cfg.hasCredentials) :
    exchangeCall cfg { exchange := .ok {} } = .ok {} := if_pos hcred

/-! ## `create_order` -/

namespace CreateOrder

variable {payload : OrderCreate}

/-- With fresh ids, the unit of work is accepted. -/
theorem Placed.flush_writes {s : Placed cfg} {db₁ : Db} (position : Option Position)
    (hopen : db.flush c s.opened.writes = some db₁) (horder : ∀ b ∈ db.orders, b.id ≠ s.orderId) :
    ∃ i t db', db.flush c (s.writes position i t) = some db' ∧
      db'.orders = db.orders ++ [storeOrder c s.order] := by
  have hdb₁ := OpenAccount.flush_writes hopen
  obtain ⟨i, hi⟩ := exists_fresh Position.id db.positions
  obtain ⟨t, ht⟩ := exists_fresh Trade.id db.trades
  have horder₁ : db₁.flush c [.insertOrder s.order] =
      some { db₁ with orders := db₁.orders ++ [storeOrder c s.order] } := by
    apply flush_insertOrder_fresh
    rw [hdb₁]
    exact horder
  refine ⟨i, t, ?_⟩
  simp only [Placed.writes, flush_append, hopen, Option.bind_some, horder₁, flush_updateAccount]
  rw [hdb₁]
  cases position with
  | some p =>
    simp only [flush_updatePosition, Option.bind_some]
    exact ⟨_, flush_insertTrade_fresh ht, rfl⟩
  | none =>
    rw [flush_insertPosition_fresh hi]
    exact ⟨_, flush_insertTrade_fresh ht, rfl⟩

/-- The order can be accepted: the user exists, the risk check approves the order at some price and
volatility, the exchange can be called, and no two live positions are in the symbol. -/
structure Acceptable (cfg : Config) (c : Column) (db : Db) (payload : OrderCreate) : Prop where
  approved : ∃ (s : Loaded) (current : PyFloat) (vol : Volatility) (a : Approval),
    s.Current db payload ∧ db.flush c s.opened.writes ≠ none ∧
    evaluateOrder cfg vol (s.riskInput current (db.userExposure payload.userId)
      db.globalExposure) = .ok (.approved a)
  credentials : cfg.hasCredentials
  position : ∃ position, scalarOneOrNone (db.livePositionsOf payload.userId payload.symbol) =
    .ok position

theorem check_approved {vol : Volatility} {w : World} {s : Loaded} {current : PyFloat}
    {userExposure globalExposure : ℚ} {a : Approval}
    (h : evaluateOrder cfg vol (s.riskInput current userExposure globalExposure) =
      .ok (.approved a)) :
    ∃ o : Checked cfg, o.toLoaded = s ∧
      check cfg vol w s current userExposure globalExposure = (w, .await (.newOrder o)) := by
  unfold check
  split
  · rename_i h'
    cases h.symm.trans h'
  · rename_i h'
    cases h.symm.trans h'
  · exact ⟨_, rfl, rfl⟩

/-- The account is found or opened. -/
theorem getAccount_canEnd {w : World} {user : User} {o : OpenAccount}
    {Q : World → Except Failure Reply → Prop} (ho : o.Current w.db payload.userId)
    (hopen : w.db.flush c o.writes ≠ none)
    (h : CanEnd (step cfg c) w (.getPrice ⟨payload, user, o⟩) Q) :
    CanEnd (step cfg c) w (.getAccount payload user .select) Q := by
  unfold OpenAccount.Current at ho
  split at ho
  · rename_i hfresh
    obtain ⟨hnone, haccount⟩ := ho
    have heq : OpenAccount.created o.account.id payload.userId = o := by
      cases o
      simp only at hfresh haccount
      rw [OpenAccount.created, ← haccount, hfresh]
    refine .await {} (by simp only [step, GetAccount.step, hnone, scalarOneOrNone]; rfl) ?_
    refine .await { rowId := o.account.id } ?_ h
    simp only [step, GetAccount.step, heq, hopen, or_false, Bool.false_eq_true, if_false]
  · rename_i hfresh
    have heq : (⟨o.account, false⟩ : OpenAccount) = o := by
      cases o
      simp only [Bool.not_eq_true] at hfresh
      rw [hfresh]
    refine .await {} ?_ h
    simp only [step, GetAccount.step, ho, scalarOneOrNone, heq, Bool.false_eq_true, if_false]

/-- From the call of the exchange on, nothing need go wrong. -/
theorem canEnd_newOrder {w : World} {o : Checked cfg} {position : Option Position}
    (hopen : w.db.flush c o.opened.writes ≠ none) (hcred : cfg.hasCredentials)
    (hpos : scalarOneOrNone (w.db.livePositionsOf o.payload.userId o.payload.symbol) =
      .ok position) :
    CanEnd (step cfg c) w (.newOrder o) fun _ r => ∃ x, r = .ok x := by
  obtain ⟨n, hn⟩ := exists_fresh Order.id w.db.orders
  obtain ⟨db₁, hdb₁⟩ := Option.ne_none_iff_exists'.mp hopen
  let s : Placed cfg := { o with orderId := n, reply := {} }
  obtain ⟨i, t, db', hflush, horders⟩ := s.flush_writes position hdb₁ hn
  have horder : w.db.flush c (o.opened.writes ++ [.insertOrder s.order]) ≠ none := by
    obtain ⟨db₄, hflush, -⟩ := flush_append_some hflush
    obtain ⟨db₃, hflush, -⟩ := flush_append_some hflush
    obtain ⟨db₂, hflush, -⟩ := flush_append_some hflush
    exact Option.ne_none_iff_exists'.mpr ⟨db₂, hflush⟩
  let accepted : World := w.accept o.request
  have hcommit := World.commit_of_flush accepted hflush
  refine .await (v := accepted) (q := .flushOrder o {}) { exchange := .ok {} } ?_ ?_
  · simp only [step, exchangeCall_accepts hcred]
    rfl
  refine .await (v := accepted) (q := .selectPosition s) { rowId := n } ?_ ?_
  · refine if_neg ?_
    rintro (hfails | hnone)
    · cases hfails
    · exact horder hnone
  refine .await (v := accepted) (q := .commit s position) {} ?_ ?_
  · simp only [step, Bool.false_eq_true, if_false]
    rw [show scalarOneOrNone (accepted.db.livePositionsOf s.payload.userId s.payload.symbol) =
      .ok position from hpos]
  refine .await (v := { accepted with db := db' }) (q := .refresh s) { rowId := i, tradeId := t }
    ?_ ?_
  · simp only [step, hcommit, Bool.false_eq_true, if_false]
  cases hfind : findRow Order.id s.orderId db'.orders with
  | none =>
    refine absurd rfl (findRow_none.mp hfind (storeOrder c s.order) ?_)
    rw [horders]
    exact List.mem_append_right _ List.mem_cons_self
  | some row =>
    refine .done (v := { accepted with db := db' }.emit s.approvedEvent) {} ?_ ⟨s.result row, rfl⟩
    simp only [step, hfind, Bool.false_eq_true, if_false]

/-- An acceptable order is accepted, with some answers. -/
theorem Acceptable.canEnd {w : World} (h : Acceptable cfg c w.db payload) :
    CanEnd (step cfg c) w (.selectUser payload) fun _ r => ∃ x, r = .ok x := by
  obtain ⟨⟨s, current, vol, a, ⟨rfl, huser, hopened⟩, hopen, heval⟩, hcred, position, hpos⟩ := h
  obtain ⟨o, rfl, hcheck⟩ := check_approved (w := w) heval
  refine .await {} (by simp only [step, huser, scalarOneOrNone]; rfl) ?_
  refine getAccount_canEnd (o := o.opened) hopened hopen ?_
  refine .await { price := some current } rfl ?_
  refine .await {} rfl ?_
  refine .await { vol } hcheck ?_
  exact canEnd_newOrder hopen hcred hpos

/-- Without credentials, nothing is changed. -/
theorem run_uncredentialed {as : List Answer} {w w' : World} {r : Except Failure Reply}
    (hcred : ¬cfg.hasCredentials)
    (h : run (step cfg c) as w (.selectUser payload) = some (w', r)) :
    w'.db = w.db ∧ ∀ x, r ≠ .ok x := by
  refine run_induct (C := fun _ => True) (I := fun v p => v.db = w.db ∧ p.accepted = [])
    (Q := fun v r => v.db = w.db ∧ ∀ x, r ≠ .ok x) ?_ ?_ (fun _ _ => trivial) ⟨rfl, rfl⟩ h
  · rintro v a p v' p' - ⟨hdb, hp⟩ hs
    cases step_cases hs with
    | accepted hr => exact absurd (exchangeCall_ok hr) hcred
    | flushed | flushedOnly | cached | positioned | committed => cases hp
    | _ => exact ⟨hdb, rfl⟩
  · rintro v a p v' r - ⟨hdb, hp⟩ hs
    refine ⟨(step_done hs).1.trans hdb, ?_⟩
    rintro x rfl
    cases step_cases hs with
    | refreshed => cases hp

/-- A call changes rows only when its order is acceptable. -/
theorem acceptable_of_run {as : List Answer} {w w' : World} {r : Except Failure Reply}
    (hn : ¬Acceptable cfg c w.db payload)
    (h : run (step cfg c) as w (.selectUser payload) = some (w', r)) :
    w'.db = w.db ∧ ∀ x, r ≠ .ok x := by
  by_cases hcred : cfg.hasCredentials
  · rcases run_alone (A := fun _ => True) (fun _ _ => trivial) h with hsame |
      ⟨s, position, i, t, hc, -⟩
    · exact hsame
    · obtain ⟨db₁, hopen⟩ := hc.opened_flush
      refine absurd ?_ hn
      refine ⟨⟨s.toLoaded, s.current, s.vol, s.approval, hc.loaded, ?_, ?_⟩, hcred, position, ?_⟩
      · rw [hopen]
        exact Option.some_ne_none _
      · rw [← hc.userExposure, ← hc.globalExposure]
        exact s.evaluated
      · rw [hc.position_eq]
        cases position <;> rfl
  · exact run_uncredentialed hcred h

end CreateOrder

/-! ## `close_position` -/

namespace ClosePosition

variable {userId : ℤ} {symbol : String}

/-- The user has a live position in the symbol, and one only, and the exchange can be called. -/
structure Closable (cfg : Config) (db : Db) (userId : ℤ) (symbol : String) : Prop where
  position : ∃ position, db.livePositionsOf userId (cfg.upper symbol) = [position]
  credentials : cfg.hasCredentials

theorem selectAccount_found (hv : db.Valid c) (id : ℕ) :
    ∃ account, scalarOneOrNone (db.selectAccount id) = .ok account := by
  cases hs : db.selectAccount id with
  | nil => exact ⟨none, rfl⟩
  | cons a as =>
    obtain ⟨ha, rfl⟩ := mem_selectAccount.mp (hs ▸ List.mem_cons_self : a ∈ db.selectAccount id)
    have hone : db.selectAccount a.id = [a] := hv.accounts.keyed.filter_key ha
    rw [hs] at hone
    rw [hone]
    exact ⟨some a, rfl⟩

theorem Loaded.flush_closing (s : Loaded) (c : Column) (db : Db) (account : Option Account) :
    ∃ db', db.flush c (s.closing account) = some db' ∧ db'.orders = db.orders ∧
      db'.trades = db.trades := by
  cases account with
  | none => exact ⟨_, flush_updatePosition _ _, rfl, rfl⟩
  | some a =>
    rw [closing, flush_append, flush_updateAccount, Option.bind_some]
    exact ⟨_, flush_updatePosition _ _, rfl, rfl⟩

/-- With fresh ids, the unit of work is accepted. -/
theorem Loaded.flush_writes (s : Loaded) (closePrice : PyFloat) (account : Option Account)
    {n t : ℕ} (horder : ∀ b ∈ db.orders, b.id ≠ n) (ht : ∀ b ∈ db.trades, b.id ≠ t) :
    db.flush c (s.closing account ++ [.insertOrder (s.order n closePrice)]) ≠ none ∧
      ∃ db', db.flush c (s.writes closePrice account n t) = some db' := by
  obtain ⟨db₁, hclosing, horders, htrades⟩ := s.flush_closing c db account
  have hinsert : db₁.flush c [.insertOrder (s.order n closePrice)] =
      some { db₁ with orders := db₁.orders ++ [storeOrder c (s.order n closePrice)] } := by
    apply flush_insertOrder_fresh
    rw [horders]
    exact horder
  have hflushed : db.flush c (s.closing account ++ [.insertOrder (s.order n closePrice)]) =
      some { db₁ with orders := db₁.orders ++ [storeOrder c (s.order n closePrice)] } := by
    rw [flush_append, hclosing, Option.bind_some, hinsert]
  have ht₁ : ∀ b ∈ db₁.trades, b.id ≠ t := by
    rw [htrades]
    exact ht
  rw [Loaded.writes, flush_append (s.closing account ++ _), hflushed, Option.bind_some]
  exact ⟨Option.some_ne_none _, _, flush_insertTrade_fresh ht₁⟩

/-- A position that can be closed is closed, with some answers. -/
theorem Closable.canEnd {w : World} (hv : w.db.Valid c) (h : Closable cfg w.db userId symbol) :
    CanEnd (step cfg c) w (.selectPosition userId symbol) fun _ r => ∃ x, r = .ok x := by
  obtain ⟨⟨position, hpos⟩, hcred⟩ := h
  let s : Loaded := ⟨userId, cfg.upper symbol, position⟩
  obtain ⟨account, haccount⟩ := selectAccount_found hv position.accountId
  obtain ⟨n, hn⟩ := exists_fresh Order.id w.db.orders
  obtain ⟨t, ht⟩ := exists_fresh Trade.id w.db.trades
  obtain ⟨horder, db', hflush⟩ := s.flush_writes (c := c) .zero account hn ht
  let accepted : World := w.accept (.reduceOnly s.symbol s.closeSide s.quantity)
  refine .await (v := w) (q := .getPrice s) {} ?_ ?_
  · simp only [step, hpos, scalarOneOrNone]
    rfl
  refine .await (v := w) (q := .reduceOnly s .zero) { price := some .zero } rfl ?_
  refine .await (v := accepted) (q := .selectAccount s .zero) { exchange := .ok {} } ?_ ?_
  · simp only [step, exchangeCall_accepts hcred]
    rfl
  refine .await (v := accepted) (q := .flushOrder s .zero account) {} ?_ ?_
  · simp only [step, Bool.false_eq_true, if_false]
    rw [show scalarOneOrNone (accepted.db.selectAccount s.position.accountId) = .ok account
      from haccount]
  refine .await (v := accepted) (q := .commit s .zero account n) { rowId := n } ?_ ?_
  · refine if_neg ?_
    rintro (hfails | hnone)
    · cases hfails
    · exact horder hnone
  let reply : Reply :=
    { symbol := s.symbol, side := s.closeSide, quantity := cfg.float s.quantity
      price := cfg.float PyFloat.zero.value }
  refine .done (v := { accepted with db := db' }) (r := .ok reply) { tradeId := t } ?_ ⟨_, rfl⟩
  have hcommit := World.commit_of_flush accepted hflush
  simp only [step, hcommit, Bool.false_eq_true, if_false]
  rfl

/-- Without credentials, nothing is changed. -/
theorem run_uncredentialed {as : List Answer} {w w' : World} {r : Except Failure Reply}
    (hcred : ¬cfg.hasCredentials)
    (h : run (step cfg c) as w (.selectPosition userId symbol) = some (w', r)) :
    w'.db = w.db ∧ ∀ x, r ≠ .ok x := by
  refine run_induct (C := fun _ => True) (I := fun v p => v.db = w.db ∧ p.accepted = [])
    (Q := fun v r => v.db = w.db ∧ ∀ x, r ≠ .ok x) ?_ ?_ (fun _ _ => trivial) ⟨rfl, rfl⟩ h
  · rintro v a p v' p' - ⟨hdb, hp⟩ hs
    cases step_cases hs with
    | reduced hr => exact absurd (exchangeCall_ok hr) hcred
    | found | priced => exact ⟨hdb, rfl⟩
    | _ => cases hp
  · rintro v a p v' r - ⟨hdb, hp⟩ hs
    cases step_cases hs with
    | failed => exact ⟨hdb, by simp⟩
    | committed => cases hp

/-- A call changes rows only when the position can be closed. -/
theorem closable_of_run {as : List Answer} {w w' : World} {r : Except Failure Reply}
    (hn : ¬Closable cfg w.db userId symbol)
    (h : run (step cfg c) as w (.selectPosition userId symbol) = some (w', r)) :
    w'.db = w.db ∧ ∀ x, r ≠ .ok x := by
  by_cases hcred : cfg.hasCredentials
  · rcases run_alone (A := fun _ => True) (fun _ _ => trivial) h with hsame |
      ⟨s, closePrice, account, o, t, hc, -⟩
    · exact hsame
    · exact absurd ⟨⟨s.position, hc.position_eq⟩, hcred⟩ hn
  · exact run_uncredentialed hcred h

end ClosePosition

/-! ## `cancel_order` -/

namespace CancelOrder

variable {orderId : ℕ} {userId : ℤ}

/-- The user has the order, it is not filled, and the exchange can be called when the order is
linked. -/
structure Cancelable (cfg : Config) (w : World) (orderId : ℕ) (userId : ℤ) : Prop where
  order : ∃ order ∈ w.db.orders, order.id = orderId ∧ order.userId = userId ∧
    order.status ≠ "FILLED"
  linked : w.redis orderId = none ∨ cfg.hasCredentials

/-- From the commit on, nothing need go wrong, and the reply is the user's row. -/
theorem canEnd_commit {w : World} (hv : w.db.Valid c) {order : Order}
    (hselect : (w.db.orders.filter fun o => o.id = orderId ∧ o.userId = userId) = [order]) :
    CanEnd (step cfg c) w (.commit order) fun _ r =>
      ∃ o : Order, r = .ok o ∧ o.userId = userId := by
  obtain ⟨db', hflush⟩ : ∃ db', w.db.flush c (updateOrder order (canceled order)) = some db' :=
    ⟨_, flush_updateOrder _ _⟩
  have hc : Committed c w.db orderId userId order db' := ⟨hselect, hflush⟩
  obtain ⟨ho, rfl, rfl, rfl⟩ := hc.eq hv
  have hcommit := World.commit_of_flush w hflush
  refine .await (v := { w with db := w.db.modifyOrder order.id canceled }) (q := .refresh order)
    {} ?_ ?_
  · simp only [step, hcommit, Bool.false_eq_true, if_false]
  have hmem : canceled order ∈ modify Order.id order.id canceled w.db.orders :=
    mem_modify.mpr ⟨order, ho, if_pos rfl⟩
  have hkeyed : Keyed Order.id (modify Order.id order.id canceled w.db.orders) :=
    hv.orders.keyed.modify fun _ => rfl
  have hfind : findRow Order.id order.id (modify Order.id order.id canceled w.db.orders) =
      some (canceled order) := hkeyed.findRow hmem
  refine .done (v := { w with db := w.db.modifyOrder order.id canceled })
    (r := .ok (canceled order)) {} ?_ ⟨canceled order, rfl, rfl⟩
  simp only [step, modifyOrder, hfind, Bool.false_eq_true, if_false]

/-- An order that can be cancelled is, with some answers. -/
theorem Cancelable.canEnd {w : World} (hv : w.db.Valid c) (h : Cancelable cfg w orderId userId) :
    CanEnd (step cfg c) w (.selectOrder orderId userId) fun _ r =>
      ∃ o : Order, r = .ok o ∧ o.userId = userId := by
  obtain ⟨⟨order, ho, rfl, rfl, hstatus⟩, hlinked⟩ := h
  have hselect : (w.db.orders.filter fun o => o.id = order.id ∧ o.userId = order.userId) =
      [order] := by
    rw [← hv.orders.keyed.filter_key ho]
    refine List.filter_congr fun o ho' => ?_
    rw [decide_eq_decide]
    refine and_iff_left_of_imp fun hid => ?_
    rw [hv.orders.keyed.eq_of_key ho' ho hid]
  refine .await (v := w) (q := .redisGet order) {} ?_ ?_
  · simp only [step, hselect, scalarOneOrNone, hstatus, Bool.false_eq_true, if_false]
  cases hx : w.redis order.id with
  | none =>
    refine .await (v := w) (q := .commit order) {} ?_ (canEnd_commit hv hselect)
    simp only [step, hx, Bool.false_eq_true, if_false]
  | some x =>
    have hcred : cfg.hasCredentials := by
      rcases hlinked with hnone | hcred
      · rw [hx] at hnone
        cases hnone
      · exact hcred
    refine .await (v := w) (q := .cancelOrder order x) {} ?_ ?_
    · simp only [step, hx, Bool.false_eq_true, if_false]
    let accepted : World := w.accept (.cancelOrder order.symbol x)
    refine .await (v := accepted) (q := .commit order) { exchange := .ok {} } ?_
      (canEnd_commit (w := accepted) hv hselect)
    simp only [step, exchangeCall_accepts hcred]
    rfl

/-- The phases of a call before the exchange has cancelled the order. -/
def Pending (w : World) (orderId : ℕ) (userId : ℤ) : Phase → Prop
  | .selectOrder o u => o = orderId ∧ u = userId
  | .redisGet order | .cancelOrder order _ =>
    order ∈ w.db.orders ∧ order.id = orderId ∧ order.userId = userId ∧ order.status ≠ "FILLED"
  | .commit _ | .refresh _ => False

/-- A call changes or returns a row only when the order can be cancelled. -/
theorem cancelable_of_run {as : List Answer} {w w' : World} {r : Except Failure Order}
    (hn : ¬Cancelable cfg w orderId userId)
    (h : run (step cfg c) as w (.selectOrder orderId userId) = some (w', r)) :
    w'.db = w.db ∧ ∀ x, r ≠ .ok x := by
  refine run_induct (C := fun _ => True) (I := fun v p => v = w ∧ Pending w orderId userId p)
    (Q := fun v r => v.db = w.db ∧ ∀ x, r ≠ .ok x) ?_ ?_ (fun _ _ => trivial)
    ⟨rfl, show Pending w orderId userId (.selectOrder orderId userId) from ⟨rfl, rfl⟩⟩ h
  · rintro v a p v' p' - ⟨rfl, hp⟩ hs
    cases step_cases hs with
    | found hselect hstatus =>
      obtain ⟨rfl, rfl⟩ := hp
      have hmem := scalarOneOrNone_some hselect ▸ List.mem_cons_self
      simp only [List.mem_filter, decide_eq_true_eq] at hmem
      exact ⟨rfl, hmem.1, hmem.2.1, hmem.2.2, hstatus⟩
    | uncached hx =>
      obtain ⟨ho, rfl, hu, hstatus⟩ := hp
      exact absurd ⟨⟨_, ho, rfl, hu, hstatus⟩, .inl hx⟩ hn
    | cached hx => exact ⟨rfl, hp⟩
    | accepted hr =>
      obtain ⟨ho, hid, hu, hstatus⟩ := hp
      exact absurd ⟨⟨_, ho, hid, hu, hstatus⟩, .inr (exchangeCall_ok hr)⟩ hn
    | committed => exact hp.elim
  · rintro v a p v' r - ⟨rfl, hp⟩ hs
    cases step_cases hs with
    | failed => exact ⟨rfl, by simp⟩
    | refreshed => exact hp.elim

end CancelOrder

/-! ## `set_margin_type` -/

namespace SetMarginType

variable {q : Request}

/-- The exchange can be called, and the user has a live position of another margin type in the
symbol. -/
structure Changeable (cfg : Config) (db : Db) (userId : ℤ) (symbol : String)
    (marginType : MarginType) : Prop where
  credentials : cfg.hasCredentials
  position : ∃ p ∈ db.positions, p.userId = userId ∧ p.symbol = cfg.upper symbol ∧
    p.liquidated = false ∧ p.marginType ≠ marginType

/-- A margin type that can be changed is, with some answers. -/
theorem Changeable.canEnd {w : World} (hv : w.db.Valid c)
    (h : Changeable cfg w.db q.userId q.symbol q.marginType) :
    CanEnd (step cfg c) w (.changeMarginType q) fun w' _ =>
      ∃ p ∈ w.db.positions, p.userId = q.userId ∧ p ∉ w'.db.positions := by
  obtain ⟨hcred, p, hp, hu, hs, hl, hne⟩ := h
  let ps := w.db.positions.filter fun p => p.userId = q.userId
  have hk : Keyed Position.id ps := hv.positions.keyed.sublist (List.filter_sublist.map _)
  let accepted : World := w.accept (.changeMarginType (cfg.upper q.symbol) q.marginType)
  obtain ⟨db', hflush, hpositions⟩ : ∃ db', w.db.flush c (writes cfg q ps) = some db' ∧
      db'.positions = w.db.positions.map fun p =>
        ((findRow Position.id p.id (touched cfg q ps)).map fun u => change q u p).getD p :=
    ⟨_, flush_writes hk, rfl⟩
  have hcommit := World.commit_of_flush accepted hflush
  refine .await (v := accepted) (q := .selectPositions q) { exchange := .ok {} } ?_ ?_
  · simp only [step, hcred, not_true_eq_false, if_false]
    rfl
  refine .await (v := accepted) (q := .commit q ps) {} rfl ?_
  let detail := "Margin type for " ++ cfg.upper q.symbol ++ " set to " ++ q.marginType.text
  refine .done (v := { accepted with db := db' }.emit (changed cfg q)) (r := .ok detail) {} ?_ ?_
  · simp only [step, hcommit, Bool.false_eq_true, if_false]
    rfl
  -- the row with this id has the new margin type now
  refine ⟨p, hp, hu, fun hmem => ?_⟩
  have hmem' : p ∈ db'.positions := hmem
  rw [hpositions] at hmem'
  obtain ⟨x, hx, hxp⟩ := List.mem_map.mp hmem'
  have hid : ∀ y : Position,
      (((findRow Position.id y.id (touched cfg q ps)).map fun u => change q u y).getD y).id =
        y.id := by
    intro y
    cases findRow Position.id y.id (touched cfg q ps) <;> rfl
  have hxid : x.id = p.id := by
    rw [← hid x, hxp]
  rw [hv.positions.keyed.eq_of_key hx hp hxid] at hxp
  have htouched : p ∈ touched cfg q ps := by
    simp only [touched, ps, List.mem_filter, decide_eq_true_eq]
    exact ⟨⟨hp, hu⟩, hs, hl⟩
  have hkt : Keyed Position.id (touched cfg q ps) := hk.sublist (List.filter_sublist.map _)
  rw [hkt.findRow htouched] at hxp
  have htype : (change q p p).marginType = p.marginType := congrArg Position.marginType hxp
  rw [change, patch_id_self] at htype
  exact hne htype.symm

theorem updatePosition_self (p : Position) : updatePosition p p = [] := by
  simp [updatePosition, dirty]

/-- A call changes a row only when a margin type can be changed. -/
theorem changeable_of_run {as : List Answer} {w w' : World} {r : Except Failure String}
    (hn : ¬Changeable cfg w.db q.userId q.symbol q.marginType)
    (h : run (step cfg c) as w (.changeMarginType q) = some (w', r)) : w'.db = w.db := by
  by_cases hcred : cfg.hasCredentials
  · rcases run_alone h with hsame | hflush
    · exact hsame
    · have hnil : writes cfg q (w.db.positions.filter fun p => p.userId = q.userId) = [] := by
        refine List.flatMap_eq_nil_iff.mpr fun p hp => ?_
        simp only [touched, List.mem_filter, decide_eq_true_eq] at hp
        obtain ⟨⟨hp, hu⟩, hs, hl⟩ := hp
        have hsame : p.marginType = q.marginType := by
          by_contra hne
          exact hn ⟨hcred, p, hp, hu, hs, hl, hne⟩
        rw [← hsame]
        exact updatePosition_self p
      rw [hnil] at hflush
      exact (Option.some.inj hflush).symm
  · cases as with
    | nil => cases h
    | cons a as =>
      have hstep : step cfg c w a (.changeMarginType q) =
          (w, .done (.error (.http 400 "Exchange integration not configured"))) := if_pos hcred
      rw [run, hstep] at h
      cases h
      rfl

end SetMarginType

/-! ## Views -/

/-- The user has an account, or is there to be given one. -/
def SyncBalance.Openable (db : Db) (userId : ℤ) : Prop :=
  (∃ a ∈ db.accounts, a.userId = userId) ∨ ∃ u ∈ db.users, u.id = userId

/-- The account is found or opened, and returned as it is when the wallet cannot be fetched. -/
theorem SyncBalance.canEnd {w : World} (hv : w.db.Valid c) {userId : ℤ}
    (h : Openable w.db userId) : CanEnd (step cfg c) w (.getAccount userId .select) fun w' r =>
      w' = w ∧ ∃ a : Account, a.userId = userId ∧ r = .ok a := by
  have hopened : ∀ o : OpenAccount, o.account.userId = userId →
      (if cfg.hasCredentials then Next.await (.wallet o) else .done (.ok o.account) :
        After Phase Account).CanEnd (step cfg c) (fun w' r =>
          w' = w ∧ ∃ a : Account, a.userId = userId ∧ r = .ok a) w := by
    intro o ho
    split
    · exact .done (v := w) (r := .ok o.account) {} rfl ⟨rfl, o.account, ho, rfl⟩
    · exact ⟨rfl, o.account, ho, rfl⟩
  cases hs : w.db.selectAccountOf userId with
  | nil =>
    obtain ⟨n, hn⟩ := exists_fresh Account.id w.db.accounts
    have huser : ∃ u ∈ w.db.users, u.id = userId :=
      h.resolve_left fun ⟨a, ha, hu⟩ => selectAccountOf_nil hs a ha hu
    have hflush : w.db.flush c (OpenAccount.created n userId).writes ≠ none := by
      rw [show (OpenAccount.created n userId).writes = [.insertAccount ⟨n, userId, 0, 0⟩] from rfl,
        flush_insertAccount_fresh hn (selectAccountOf_nil hs) huser]
      exact Option.some_ne_none _
    refine .await (v := w) (q := .getAccount userId .flush) {} ?_ ?_
    · simp only [step, GetAccount.step, hs, scalarOneOrNone]
      rfl
    refine .next { rowId := n } ?_ (hopened (.created n userId) rfl)
    simp only [step, GetAccount.step, hflush, or_false, Bool.false_eq_true, if_false]
  | cons a as =>
    obtain ⟨ha, rfl⟩ := mem_selectAccountOf.mp
      (hs ▸ List.mem_cons_self : a ∈ w.db.selectAccountOf userId)
    have hone : w.db.selectAccountOf a.userId = [a] := hv.accountUsers.filter_key ha
    refine .next {} ?_ (hopened ⟨a, false⟩ rfl)
    simp only [step, GetAccount.step, hone, scalarOneOrNone, Bool.false_eq_true, if_false]

namespace View

variable {userId : ℤ} {Q : World → Except Failure View → Prop}

/-- Nobody is given an account: the `INSERT` is refused. -/
theorem run_nobody {as : List Answer} {w w' : World} {full : Bool} {r : Except Failure View}
    (hn : ¬SyncBalance.Openable w.db userId)
    (h : run (step cfg c) as w (.syncBalance full userId (.getAccount userId .select)) =
      some (w', r)) : w' = w ∧ ∀ x, r ≠ .ok x := by
  obtain ⟨haccount, huser⟩ := not_or.mp hn
  have hselect : w.db.selectAccountOf userId = [] :=
    List.filter_eq_nil_iff.mpr fun a ha hu => haccount ⟨a, ha, of_decide_eq_true hu⟩
  have hflush : ∀ n, w.db.flush c (OpenAccount.created n userId).writes = none := fun n =>
    flush_insertAccount_nobody fun u hu e => huser ⟨u, hu, e⟩
  refine run_induct (C := fun _ => True)
    (I := fun v p => v = w ∧ (p = .syncBalance full userId (.getAccount userId .select) ∨
      p = .syncBalance full userId (.getAccount userId .flush)))
    (Q := fun v r => v = w ∧ ∀ x, r ≠ .ok x) ?_ ?_ (fun _ _ => trivial) ⟨rfl, .inl rfl⟩ h
  · rintro v a p v' p' - ⟨rfl, rfl | rfl⟩ hs
    · by_cases hf : a.fails
      · simp [step, SyncBalance.step, GetAccount.step, hf] at hs
      · simp [step, SyncBalance.step, GetAccount.step, hf, hselect, scalarOneOrNone] at hs
        obtain ⟨rfl, rfl⟩ := hs
        exact ⟨rfl, .inr rfl⟩
    · simp [step, SyncBalance.step, GetAccount.step, hflush] at hs
  · rintro v a p v' r - ⟨rfl, rfl | rfl⟩ hs
    · by_cases hf : a.fails
      · simp [step, SyncBalance.step, GetAccount.step, hf] at hs
        obtain ⟨rfl, rfl⟩ := hs
        exact ⟨rfl, fun x hx => by cases hx⟩
      · simp [step, SyncBalance.step, GetAccount.step, hf, hselect, scalarOneOrNone] at hs
    · simp [step, SyncBalance.step, GetAccount.step, hflush] at hs
      obtain ⟨rfl, rfl⟩ := hs
      exact ⟨rfl, fun x hx => by cases hx⟩

/-- The loop over the positions ends, with all of them. -/
theorem canEnd_pair {w : World} {account : Option Account} (ps : List Position)
    (paired : List (Position × PyFloat))
    (h : ∀ xs, xs.map Prod.fst = paired.map Prod.fst ++ ps → Q w (.ok (ofPositions account xs))) :
    (pair account paired ps).CanEnd (step cfg c) Q w := by
  induction ps generalizing paired with
  | nil => exact h paired (List.append_nil _).symm
  | cons p ps ih =>
    have hnext : ∀ pnl, (pair account (paired ++ [(p, pnl)]) ps).CanEnd (step cfg c) Q w := by
      intro pnl
      refine ih _ fun xs hxs => h xs ?_
      rw [hxs, List.map_append, List.append_assoc]
      rfl
    rw [pair]
    split
    · exact hnext _
    · exact .next {} rfl (hnext _)

theorem canEnd_selectPositions {w : World} {account : Option Account}
    (h : ∀ xs, (xs.map Prod.fst = w.db.positions.filter fun p => p.userId = userId) →
      Q w (.ok (ofPositions account xs))) :
    CanEnd (step cfg c) w (.selectPositions account userId) Q :=
  .next {} rfl (canEnd_pair _ [] h)

/-- A view over the account runs on from where `sync_balance_from_exchange` ends. -/
theorem canEnd_syncBalance {w : World} {full : Bool} {p : SyncBalance.Phase}
    (h : CanEnd (SyncBalance.step cfg c) w p fun w' r => ∃ a, r = .ok a ∧
      (if full then .await (.selectPositions (some a) userId) else .done (.ok (.margin a)) :
        After Phase View).CanEnd (step cfg c) Q w') :
    CanEnd (step cfg c) w (.syncBalance full userId p) Q := by
  obtain ⟨as, w', r, hrun, a, rfl, hQ⟩ := h
  induction as generalizing w p with
  | nil => cases hrun
  | cons b as ih =>
    rw [run] at hrun
    split at hrun
    · rename_i w₁ p₁ hs
      refine .await (v := w₁) (q := .syncBalance full userId p₁) b ?_ (ih hrun)
      simp only [step, hs]
    · rename_i hs
      cases hrun
      refine .next b ?_ hQ
      simp only [step, hs]

end View

end CryptoExchange
