import CryptoExchange.Ledger.Flush
import CryptoExchange.Ledger.Service
import CryptoExchange.Lib.Locks

/-!
# Live positions under concurrent calls

`create_order` looks up the live position of its user in the symbol, and inserts one at its commit
when there was none. No constraint of the tables keeps two calls from both inserting one. What does
is a row lock: before the lookup the session flushes `UPDATE accounts`, and another call of the user
waits in its own until the commit. But a session flushes no `UPDATE` for a margin that does not
change `margin_used` (`Placed.moves`).

* `orderLocks`: the account rows that a session has locked, and those that a call locks. Locks on
  rows of positions are left out: a session that waits for one commits next, and looks nothing up.
* `orderSessions`: any number of `create_order` and `close_position` calls, interleaved. A call
  waits for a row that another session has locked.
* A statement that is `Quiet` makes no position live: only an inserted position adds one.
* `StillFirst`: at the commit of a first order there is still no live position.
* `one_live_position`: in runs that keep to it there is at most one live position for a user and a
  symbol, and every lookup of one succeeds. `two_live_positions` is a run that does not.
* `stillFirst_of_moves`: a run in which every order changes `margin_used` keeps to it.
-/

namespace CryptoExchange

open Lib Db

variable {cfg : Config} {c : Column} {db db' : Db}

/-- At most one live position of each user in each symbol. -/
def OneLive (db : Db) : Prop :=
  ∀ userId symbol, (db.livePositionsOf userId symbol).length ≤ 1

/-- The tasks of a call of `create_order` or `close_position` that starts. -/
def Starting (t : Next (Task cfg) (Except Failure Reply)) : Prop :=
  (∃ payload, t = .await (.createOrder (.selectUser payload))) ∨
    ∃ userId symbol, t = .await (.closePosition (.selectPosition userId symbol))

/-! ## Row locks -/

namespace CreateOrder

/-- Adding the margin changes `margin_used`. A sum of `Decimal`s has 28 digits, and a session
flushes nothing for a column that it has set to the number that was there. -/
def Placed.moves (s : Placed cfg) : Bool :=
  roundDigits 28 (s.account.marginUsed + s.approval.requiredMargin) ≠ s.account.marginUsed

/-- A margin is only lost where the sum would have more digits. -/
theorem Placed.moves_of_digits (s : Placed cfg) {d e : ℤ} (hp : 0 < s.price) (hd : |d| < 10 ^ 28)
    (h : s.account.marginUsed + s.approval.requiredMargin = d * 10 ^ e) : s.moves = true := by
  have hpos : 0 < s.approval.requiredMargin := s.approved.requiredMargin_pos hp
  refine decide_eq_true ?_
  rw [h, roundDigits_of_lt hd, ← h]
  exact (lt_add_of_pos_right _ hpos).ne'

/-- The user whose account row the session has inserted. -/
def Loaded.inserted (s : Loaded) : List ℤ := if s.opened.fresh then [s.payload.userId] else []

/-- The users whose account row the session has inserted or updated. -/
def Phase.locked : Phase cfg → List ℤ
  | .selectUser _ | .getAccount .. | .refresh _ => []
  | .getPrice s | .userExposure s _ | .globalExposure s _ _ => s.inserted
  | .newOrder s | .flushOrder s _ => s.inserted
  | .redisSet s _ | .selectPosition s => s.inserted
  | .commit s _ => if s.opened.fresh ∨ s.moves then [s.payload.userId] else []

/-- The users whose account row the awaited call inserts or updates: `selectPosition` flushes before
it reads. -/
def Phase.locks : Phase cfg → List ℤ
  | .getAccount payload _ .flush => [payload.userId]
  | .selectPosition s => if s.moves then [s.payload.userId] else []
  | _ => []

end CreateOrder

namespace ClosePosition

/-- The user whose account row the flush updates. -/
def Loaded.lock (s : Loaded) (account : Option Account) : List ℤ :=
  (account.filter fun a => (s.released a).marginUsed ≠ a.marginUsed).toList.map Account.userId

def Phase.locked : Phase → List ℤ
  | .commit s _ account _ => s.lock account
  | _ => []

def Phase.locks : Phase → List ℤ
  | .flushOrder s _ account => s.lock account
  | _ => []

end ClosePosition

/-- The account rows that the calls lock: from the statement to the end of the session's
transaction. -/
def orderLocks : Locking Answer (Task cfg) ℤ where
  holds
    | .createOrder p => p.locked
    | .closePosition p => p.locked
    | _ => []
  takes
    | .createOrder p => p.locks
    | .closePosition p => p.locks
    | _ => []
  fails := Answer.fails

/-- Calls of `create_order` and `close_position`, interleaved. -/
abbrev orderSessions (cfg : Config) (c : Column) (init : World → Prop) : Sys :=
  locked orderLocks (Task.step cfg c) fun w ts => init w ∧ ∀ t ∈ ts, Starting t

theorem Starting.holds_eq {t : Task cfg}
    (h : Starting (.await t : Next (Task cfg) (Except Failure Reply))) : orderLocks.holds t = [] := by
  obtain ⟨payload, e⟩ | ⟨userId, symbol, e⟩ := h
  · cases e; rfl
  · cases e; rfl

theorem GetAccount.step_fresh {p : GetAccount} {userId : ℤ} {w : World} {a : Answer}
    {o : OpenAccount} (h : p.step c userId w a = .done (.ok o)) (hf : o.fresh = true) :
    p = .flush ∧ a.fails = false := by
  cases p with
  | select =>
    simp only [GetAccount.step] at h
    split at h
    · cases h
    split at h
    · cases h
    · cases h; cases hf
    · cases h
  | flush =>
    simp only [GetAccount.step] at h
    split at h
    · cases h
    · rename_i hok
      exact ⟨rfl, by simpa using (not_or.mp hok).1⟩

theorem CreateOrder.locked_step {w w' : World} {a : Answer} {p q : CreateOrder.Phase cfg}
    (h : CreateOrder.step cfg c w a p = (w', .await q)) :
    ∀ k ∈ q.locked, k ∈ p.locked ∨ a.fails = false ∧ k ∈ p.locks := by
  intro k hk
  cases CreateOrder.step_cases h with
  | user | account | committed => cases hk
  | @opened payload user p o step_eq =>
    simp only [Phase.locked, Loaded.inserted] at hk
    split at hk
    · rename_i hf
      obtain ⟨rfl, hok⟩ := GetAccount.step_fresh step_eq hf
      exact .inr ⟨hok, hk⟩
    · cases hk
  | positioned found =>
    have hok : a.fails = false := by
      by_contra hfails
      rw [CreateOrder.step, if_pos (by simpa using hfails)] at h
      cases h
    simp only [Phase.locked, Phase.locks, Loaded.inserted] at hk ⊢
    split at hk
    · rename_i hf
      rcases hf with hf | hf
      · rw [if_pos hf]
        exact .inl hk
      · rw [if_pos hf]
        exact .inr ⟨hok, hk⟩
    · cases hk
  | _ => exact .inl hk

theorem ClosePosition.locked_step {w w' : World} {a : Answer} {p q : ClosePosition.Phase}
    (h : ClosePosition.step cfg c w a p = (w', .await q)) :
    ∀ k ∈ q.locked, k ∈ p.locked ∨ a.fails = false ∧ k ∈ p.locks := by
  intro k hk
  cases ClosePosition.step_cases h with
  | flushed =>
    refine .inr ⟨?_, hk⟩
    by_contra hfails
    rw [ClosePosition.step, if_pos (.inl (by simpa using hfails))] at h
    cases h
  | _ => cases hk

/-- A session has locked what its calls lock. -/
theorem orderLocks_fits : (orderLocks : Locking Answer (Task cfg) ℤ).Fits (Task.step cfg c) := by
  intro w a t w' t' h k hk
  cases t with
  | createOrder p =>
    obtain ⟨q, hq, rfl⟩ := Next.map_eq_await (congrArg Prod.snd h)
    exact CreateOrder.locked_step (Prod.ext rfl hq) k hk
  | closePosition p =>
    obtain ⟨q, hq, rfl⟩ := Next.map_eq_await (congrArg Prod.snd h)
    exact ClosePosition.locked_step (Prod.ext rfl hq) k hk
  | cancelOrder p | syncBalance p | setMarginType p | applyLiquidation p =>
    obtain ⟨q, -, rfl⟩ := Next.map_eq_await (congrArg Prod.snd h)
    cases hk

/-- At the commit of a first order the user still has no live position in the symbol. -/
def StillFirst (w : World) (_ : Answer) : Task cfg → Prop
  | .createOrder (.commit s none) =>
    w.db.livePositionsOf s.payload.userId s.payload.symbol = []
  | _ => True

instance (w : World) (a : Answer) : (t : Task cfg) → Decidable (StillFirst w a t)
  | .createOrder (.commit s none) =>
    inferInstanceAs (Decidable (w.db.livePositionsOf s.payload.userId s.payload.symbol = []))
  | .createOrder (.commit _ (some _)) | .createOrder (.selectUser ..)
  | .createOrder (.getAccount ..) | .createOrder (.getPrice ..) | .createOrder (.userExposure ..)
  | .createOrder (.globalExposure ..) | .createOrder (.newOrder ..)
  | .createOrder (.flushOrder ..) | .createOrder (.redisSet ..)
  | .createOrder (.selectPosition ..) | .createOrder (.refresh ..)
  | .closePosition _ | .cancelOrder _ | .syncBalance _ | .setMarginType _ | .applyLiquidation _ =>
    .isTrue trivial

/-! ## Statements that make nothing live -/

/-- The statement makes no position live. -/
def Write.Quiet : Write → Prop
  | .insertPosition _ => False
  | .setLiquidated _ v => v = true
  | _ => True

theorem quiet_updateAccount (a a' : Account) : ∀ x ∈ updateAccount a a', x.Quiet :=
  forall_updateAccount (fun _ => trivial) fun _ => trivial

theorem quiet_updatePosition {p p' : Position}
    (h : p'.liquidated = p.liquidated ∨ p'.liquidated = true) :
    ∀ x ∈ updatePosition p p', x.Quiet :=
  forall_updatePosition (fun _ => ⟨trivial, trivial, trivial, trivial⟩) (fun _ => trivial)
    h.resolve_left

theorem quiet_opened (o : OpenAccount) : ∀ x ∈ o.writes, x.Quiet := by
  intro x hx
  unfold OpenAccount.writes at hx
  split at hx
  · rw [List.mem_singleton.mp hx]
    trivial
  · cases hx

theorem live_modifyPosition (id : ℕ) (f : Position → Position)
    (hf : ∀ p, (f p).userId = p.userId ∧ (f p).symbol = p.symbol ∧
      ((f p).liquidated = false → p.liquidated = false)) (userId : ℤ) (symbol : String) :
    ((db.modifyPosition id f).livePositionsOf userId symbol).length ≤
      (db.livePositionsOf userId symbol).length := by
  unfold livePositionsOf Db.modifyPosition Lib.modify
  rw [← List.countP_eq_length_filter, ← List.countP_eq_length_filter, List.countP_map]
  refine List.countP_mono_left fun p _ hp => ?_
  simp only [Function.comp, decide_eq_true_eq] at hp ⊢
  split at hp
  · obtain ⟨hu, hs, hl⟩ := hf p
    rw [hu, hs] at hp
    exact ⟨hp.1, hp.2.1, hl hp.2.2⟩
  · exact hp

theorem live_quiet {w : Write} (hq : w.Quiet) (h : db.write c w = some db') (userId : ℤ)
    (symbol : String) : (db'.livePositionsOf userId symbol).length ≤
      (db.livePositionsOf userId symbol).length := by
  cases w with
  | insertPosition p => exact hq.elim
  | insertAccount a | insertOrder a | insertTrade a =>
    rw [Db.write] at h
    split at h
    · cases h
    · cases h
      exact le_rfl
  | setBalance id v | setMarginUsed id v | setStatus id v => cases h; exact le_rfl
  | setLiquidated id v =>
    obtain rfl : v = true := hq
    cases h
    exact live_modifyPosition id (fun p => { p with liquidated := true })
      (fun p => ⟨rfl, rfl, fun hl => by cases hl⟩) _ _
  | setQuantity id v | setEntryPrice id v | setNotional id v | setMargin id v
  | setMarginType id v =>
    cases h
    refine live_modifyPosition id _ (fun p => ?_) _ _
    exact ⟨rfl, rfl, fun hl => hl⟩

theorem live_flush {ws : List Write} (hq : ∀ x ∈ ws, x.Quiet) (h : db.flush c ws = some db')
    (userId : ℤ) (symbol : String) : (db'.livePositionsOf userId symbol).length ≤
      (db.livePositionsOf userId symbol).length := by
  induction ws generalizing db with
  | nil => cases h; exact le_rfl
  | cons w ws ih =>
    obtain ⟨db₁, h₁, h₂⟩ := Option.bind_eq_some_iff.mp h
    exact (ih (fun x hx => hq x (List.mem_cons_of_mem _ hx)) h₂).trans
      (live_quiet (hq w List.mem_cons_self) h₁ userId symbol)

theorem OneLive.flush (ho : OneLive db) {ws : List Write} (hq : ∀ x ∈ ws, x.Quiet)
    (h : db.flush c ws = some db') : OneLive db' := fun userId symbol =>
  (live_flush hq h userId symbol).trans (ho userId symbol)

/-- An inserted position is one more for its user and symbol. -/
theorem live_insertPosition {p : Position} (h : db.write c (.insertPosition p) = some db')
    (userId : ℤ) (symbol : String) : (db'.livePositionsOf userId symbol).length ≤
      (db.livePositionsOf userId symbol).length +
        if p.userId = userId ∧ p.symbol = symbol then 1 else 0 := by
  rw [← flush_single] at h
  obtain ⟨-, rfl⟩ := flush_insertPosition h
  unfold livePositionsOf
  rw [List.filter_append, List.length_append]
  by_cases e : p.userId = userId ∧ p.symbol = symbol
  · rw [if_pos e]
    have hlen := List.length_filter_le (fun p : Position => decide (p.userId = userId ∧
      p.symbol = symbol ∧ p.liquidated = false)) [storePosition c p]
    rw [List.length_singleton] at hlen
    omega
  · have hnil : [storePosition c p].filter (fun p : Position => decide (p.userId = userId ∧
        p.symbol = symbol ∧ p.liquidated = false)) = [] := by
      rw [List.filter_eq_nil_iff]
      intro q hq
      rw [List.mem_singleton.mp hq, decide_eq_true_eq]
      exact fun hc => e ⟨hc.1, hc.2.1⟩
    rw [if_neg e, hnil]
    rfl

/-! ## Commits -/

theorem CreateOrder.live_added {s : CreateOrder.Placed cfg} {p : Position} {i t : ℕ}
    (h : db.flush c (s.writes (some p) i t) = some db') (userId : ℤ) (symbol : String) :
    (db'.livePositionsOf userId symbol).length ≤ (db.livePositionsOf userId symbol).length := by
  refine live_flush ?_ h userId symbol
  simp only [CreateOrder.Placed.writes, List.forall_mem_append]
  exact ⟨⟨⟨⟨quiet_opened _, by simp [Write.Quiet]⟩, quiet_updateAccount _ _⟩,
    quiet_updatePosition (.inl rfl)⟩, by simp [Write.Quiet]⟩

/-- A first order is one more live position of its user in its symbol. -/
theorem CreateOrder.live_inserted {s : CreateOrder.Placed cfg} {i t : ℕ}
    (h : db.flush c (s.writes none i t) = some db') (userId : ℤ) (symbol : String) :
    (db'.livePositionsOf userId symbol).length ≤ (db.livePositionsOf userId symbol).length +
      if s.payload.userId = userId ∧ s.payload.symbol = symbol then 1 else 0 := by
  unfold CreateOrder.Placed.writes at h
  rw [flush_append, flush_append] at h
  obtain ⟨db₂, h, htrade⟩ := Option.bind_eq_some_iff.mp h
  obtain ⟨db₁, hbefore, hinsert⟩ := Option.bind_eq_some_iff.mp h
  have before := live_flush (List.forall_mem_append.mpr ⟨List.forall_mem_append.mpr
    ⟨quiet_opened _, by simp [Write.Quiet]⟩, quiet_updateAccount _ _⟩) hbefore userId symbol
  have insert := live_insertPosition (flush_single _ ▸ hinsert) userId symbol
  have after := live_flush (show ∀ x ∈ [Write.insertTrade (s.trade t)], x.Quiet by
    simp [Write.Quiet]) htrade userId symbol
  exact after.trans (insert.trans (Nat.add_le_add_right before _))

theorem ClosePosition.live_closed {s : ClosePosition.Loaded} {closePrice : PyFloat}
    {account : Option Account} {o t : ℕ}
    (h : db.flush c (s.writes closePrice account o t) = some db') (userId : ℤ) (symbol : String) :
    (db'.livePositionsOf userId symbol).length ≤ (db.livePositionsOf userId symbol).length := by
  refine live_flush ?_ h userId symbol
  simp only [ClosePosition.Loaded.writes, ClosePosition.Loaded.closing, List.forall_mem_append]
  refine ⟨⟨⟨?_, quiet_updatePosition (.inr rfl)⟩, by simp [Write.Quiet]⟩, by simp [Write.Quiet]⟩
  cases account with
  | none => exact List.forall_mem_nil _
  | some a => exact quiet_updateAccount _ _

/-! ## Steps -/

/-- The live positions of the user in the symbol that the next step adds. -/
def Task.adds (userId : ℤ) (symbol : String) : Task cfg → ℕ
  | .createOrder (.commit s none) =>
    if s.payload.userId = userId ∧ s.payload.symbol = symbol then 1 else 0
  | _ => 0

theorem CreateOrder.live_step {w w' : World} {a : Answer} {p : CreateOrder.Phase cfg}
    {n : After (CreateOrder.Phase cfg) CreateOrder.Reply} (h : CreateOrder.Steps cfg c w a p w' n)
    (userId : ℤ) (symbol : String) : (w'.db.livePositionsOf userId symbol).length ≤
      (w.db.livePositionsOf userId symbol).length +
        Task.adds userId symbol (.createOrder p : Task cfg) := by
  cases h with
  | failed db_eq => rw [db_eq]; exact Nat.le_add_right _ _
  | @committed s position w' commit_eq =>
    have hflush := World.commit_db commit_eq
    cases position with
    | none => exact CreateOrder.live_inserted hflush userId symbol
    | some p => exact CreateOrder.live_added hflush userId symbol
  | _ => exact le_rfl

theorem ClosePosition.live_step {w w' : World} {a : Answer} {p : ClosePosition.Phase}
    {n : After ClosePosition.Phase ClosePosition.Reply} (h : ClosePosition.Steps cfg c w a p w' n)
    (userId : ℤ) (symbol : String) : (w'.db.livePositionsOf userId symbol).length ≤
      (w.db.livePositionsOf userId symbol).length := by
  cases h with
  | committed commit_eq => exact ClosePosition.live_closed (World.commit_db commit_eq) userId symbol
  | _ => exact le_rfl

/-- A task of a call of `create_order` or `close_position`. -/
def Task.IsOrder : Task cfg → Prop
  | .createOrder _ | .closePosition _ => True
  | _ => False

theorem Starting.isOrder {t : Task cfg}
    (h : Starting (.await t : Next (Task cfg) (Except Failure Reply))) : t.IsOrder := by
  obtain ⟨payload, e⟩ | ⟨userId, symbol, e⟩ := h
  · cases e; trivial
  · cases e; trivial

/-- A step adds at most what `adds` says, and the call stays one. -/
theorem Task.IsOrder.step {w w' : World} {a : Answer} {t : Task cfg}
    {n : After (Task cfg) Reply} (ht : t.IsOrder) (h : Task.step cfg c w a t = (w', n)) :
    (∀ userId symbol, (w'.db.livePositionsOf userId symbol).length ≤
      (w.db.livePositionsOf userId symbol).length + t.adds userId symbol) ∧
    ∀ t', n = .await t' → t'.IsOrder := by
  cases t with
  | createOrder p =>
    cases h
    refine ⟨CreateOrder.live_step (CreateOrder.step_cases rfl), fun t' ht' => ?_⟩
    obtain ⟨q, -, rfl⟩ := Next.map_eq_await ht'
    trivial
  | closePosition p =>
    cases h
    refine ⟨ClosePosition.live_step (ClosePosition.step_cases rfl), fun t' ht' => ?_⟩
    obtain ⟨q, -, rfl⟩ := Next.map_eq_await ht'
    trivial
  | _ => exact ht.elim

/-- What a first order adds when there was nothing is one position. -/
theorem OneLive.step {w w' : World} {a : Answer} {t : Task cfg} (ho : OneLive w.db)
    (hC : StillFirst w a t) (hle : ∀ userId symbol, (w'.db.livePositionsOf userId symbol).length ≤
      (w.db.livePositionsOf userId symbol).length + t.adds userId symbol) : OneLive w'.db := by
  intro userId symbol
  refine (hle userId symbol).trans ?_
  have hone := ho userId symbol
  unfold Task.adds
  split
  · rename_i s
    split
    · rename_i e
      obtain ⟨rfl, rfl⟩ := e
      rw [show w.db.livePositionsOf s.payload.userId s.payload.symbol = [] from hC]
      exact le_rfl
    · exact hone
  · exact hone

/-! ## Runs -/

/-- **One live position.** In runs in which a first order commits only while its user still has no
live position in the symbol, no user ever has two live positions in a symbol, and the lookup of the
live position succeeds in every state. -/
theorem one_live_position {s : World × List (Next (Task cfg) (Except Failure Reply))}
    (h : ((orderSessions cfg c fun w => OneLive w.db).restrict (StepMeets StillFirst)).Reach s) :
    OneLive s.1.db ∧ ∀ userId symbol,
      ∃ p, scalarOneOrNone (s.1.db.livePositionsOf userId symbol) = .ok p := by
  have hI : ((interleave (Task.step cfg c) fun w ts => OneLive w.db ∧ ∀ t ∈ ts,
      Starting t).restrict (StepMeets StillFirst)).Inductive fun s =>
      OneLive s.1.db ∧ ∀ t, .await t ∈ s.2 → t.IsOrder := by
    refine interleave_inductive (G := fun w : World => OneLive w.db)
      (T := fun _ (t : Task cfg) => t.IsOrder)
      (fun w ts hi => ⟨hi.1, fun t ht => (hi.2 _ ht).isOrder⟩) fun w a t w' n ho ht hC hs => ?_
    obtain ⟨hle, hn⟩ := ht.step hs
    exact ⟨ho.step hC hle, hn, fun _ hq => hq⟩
  obtain ⟨ho, -⟩ := (hI.restrict_inner (D := orderLocks.Free)).reach h
  refine ⟨ho, fun userId symbol => ?_⟩
  have hlen := ho userId symbol
  rcases hl : s.1.db.livePositionsOf userId symbol with _ | ⟨p, _ | ⟨q, l⟩⟩
  · exact ⟨none, rfl⟩
  · exact ⟨some p, rfl⟩
  · rw [hl] at hlen
    simp at hlen

/-- The order changes `margin_used`, or inserts the account. -/
def MovesMargin (_ : World) (_ : Answer) : Task cfg → Prop
  | .createOrder (.selectPosition s) => s.opened.fresh = true ∨ s.moves = true
  | _ => True

/-- A call that is about to commit a position has locked the account row, and a first order is still
one. -/
def Guarded (w : World) (t : Task cfg) : Prop :=
  t.IsOrder ∧ ∀ s position, t = .createOrder (.commit s position) →
    orderLocks.holds t = [s.payload.userId] ∧
    (position = none → w.db.livePositionsOf s.payload.userId s.payload.symbol = [])

theorem Guarded.stillFirst {w : World} {a : Answer} {t : Task cfg} (h : Guarded w t) :
    StillFirst w a t := by
  cases t with
  | createOrder p =>
    cases p with
    | commit s position =>
      cases position with
      | none => exact (h.2 s none rfl).2 rfl
      | some p => trivial
    | _ => trivial
  | _ => trivial

theorem Task.step_commit {w w' : World} {a : Answer} {t : Task cfg} {s : CreateOrder.Placed cfg}
    {position : Option Position}
    (h : Task.step cfg c w a t = (w', .await (.createOrder (.commit s position)))) :
    w' = w ∧ t = .createOrder (.selectPosition s) ∧
      scalarOneOrNone (w.db.livePositionsOf s.payload.userId s.payload.symbol) = .ok position := by
  have hnext := congrArg Prod.snd h
  cases t with
  | createOrder p =>
    obtain ⟨q, hq, e⟩ := Next.map_eq_await hnext
    obtain rfl := Task.createOrder.inj e
    have hst : CreateOrder.step cfg c w a p = (w', .await (.commit s position)) :=
      Prod.ext (congrArg Prod.fst h :) hq
    cases CreateOrder.step_cases hst with
    | positioned found => exact ⟨rfl, rfl, found⟩
  | closePosition p | cancelOrder p | syncBalance p | setMarginType p | applyLiquidation p =>
    obtain ⟨q, -, e⟩ := Next.map_eq_await hnext
    cases e

/-- What others commit who hold no lock of the call, are no positions of its user. -/
theorem Guarded.other {w w' : World} {t q : Task cfg} (ht : Guarded w t) (hq : Guarded w q)
    (hlocks : ∀ k ∈ orderLocks.holds t, k ∉ orderLocks.holds q)
    (hle : ∀ userId symbol, (w'.db.livePositionsOf userId symbol).length ≤
      (w.db.livePositionsOf userId symbol).length + t.adds userId symbol) : Guarded w' q := by
  refine ⟨hq.1, fun s position e => ⟨(hq.2 s position e).1, fun hnone => ?_⟩⟩
  obtain ⟨hheld, hempty⟩ := hq.2 s position e
  have hzero : t.adds s.payload.userId s.payload.symbol = 0 := by
    unfold Task.adds
    split
    · rename_i s'
      refine if_neg fun hs => hlocks s'.payload.userId ?_ ?_
      · rw [(ht.2 s' none rfl).1]; exact List.mem_singleton_self _
      · rw [hheld, hs.1]; exact List.mem_singleton_self _
    · rfl
  have hlen := hle s.payload.userId s.payload.symbol
  rw [hempty hnone, hzero] at hlen
  exact List.eq_nil_of_length_eq_zero (Nat.le_zero.mp hlen)

/-- **Row locks.** Where every order changes `margin_used`, the lock that its `UPDATE` takes keeps
other calls of the user out until its commit: every first order is still one. -/
theorem stillFirst_of_moves {s : World × List (Next (Task cfg) (Except Failure Reply))}
    (h : ((orderSessions cfg c fun w => OneLive w.db).restrict (StepMeets MovesMargin)).Reach s) :
    OneLive s.1.db ∧ ∀ a, ∀ t, .await t ∈ s.2 → StillFirst s.1 a t := by
  have hI : ((orderSessions cfg c fun w => OneLive w.db).restrict
      (StepMeets MovesMargin)).Inductive fun s =>
      (OneLive s.1.db ∧ ∀ t, .await t ∈ s.2 → Guarded s.1 t) ∧ orderLocks.Exclusive s.2 := by
    refine locked_inductive (G := fun w : World => OneLive w.db) (T := Guarded) orderLocks_fits
      (fun w ts hi => ⟨hi.1, fun t ht => ⟨(hi.2 _ ht).holds_eq, (hi.2 _ ht).isOrder, ?_⟩⟩)
      fun w a t w' n ho ht hC hs => ?_
    · rintro s position rfl
      obtain ⟨payload, e⟩ | ⟨userId, symbol, e⟩ := hi.2 _ ht <;> cases e
    obtain ⟨hle, hn⟩ := ht.1.step hs
    refine ⟨ho.step (ht.stillFirst (a := a)) hle, fun t' e => ⟨hn t' e, ?_⟩, fun q hlocks hq =>
      ht.other hq hlocks hle⟩
    -- a call comes to its commit by the lookup of the position
    rintro s position rfl
    rw [e] at hs
    obtain ⟨rfl, rfl, found⟩ := Task.step_commit hs
    exact ⟨if_pos hC, fun hnone => scalarOneOrNone_none (hnone ▸ found)⟩
  obtain ⟨⟨ho, hT⟩, -⟩ := hI.reach h
  exact ⟨ho, fun a t ht => (hT t ht).stillFirst⟩

/-! ## Orders of one user in one symbol -/

namespace Sample

/-- One user, with an account and a position in ETHUSDT. -/
def holdingEth : World :=
  { start 1000 with
    db := { (start 1000).db with
      accounts := [⟨1, 1, 1000, 10⟩]
      positions := [
        { id := 4, accountId := 1, userId := 1, symbol := "ETHUSDT", quantity := 1
          entryPrice := 50, notional := 50, margin := 10, liquidated := false }] } }

theorem holdingEth_oneLive : OneLive holdingEth.db := fun userId symbol =>
  List.length_filter_le (fun p : Position => p.userId = userId ∧ p.symbol = symbol ∧
    p.liquidated = false) holdingEth.db.positions

/-- `n` calls for `d * 10 ^ e` BTC. -/
def btcOrders (d : ℕ) (e : ℤ) (n : ℕ) : World × List (Next (Task config) (Except Failure Reply)) :=
  (holdingEth, List.replicate n (.await (.createOrder (.selectUser (order "BTCUSDT" .buy d e)))))

theorem btcOrders_init (c : Column) (d : ℕ) (e : ℤ) (n : ℕ) :
    (orderSessions config c fun w => OneLive w.db).init (btcOrders d e n) :=
  ⟨holdingEth_oneLive, fun _ ht => .inl ⟨_, (List.mem_replicate.mp ht).2⟩⟩

/-- The first call looks for the position, and the second runs before the first commits. A third
call follows. -/
def bothFirst : List (ℕ × Answer) :=
  ((accepted (dec 1 2) 2).take 8).map ((0, ·)) ++ (accepted (dec 1 2) 1).map ((1, ·)) ++
    ((accepted (dec 1 2) 2).drop 8).map ((0, ·)) ++ ((accepted (dec 1 2) 3).take 8).map ((2, ·))

/-- One call after the other. -/
def firstThenSecond : List (ℕ × Answer) :=
  (accepted (dec 1 2) 1).map ((0, ·)) ++ (accepted (dec 1 2) 2).map ((1, ·))

/-- How the calls ended that failed. -/
def failures (ts : List (Next (Task config) (Except Failure Reply))) : List Failure :=
  ts.filterMap fun t =>
    match t with
    | .done (.error e) => some e
    | _ => none

end Sample

open Sample in
/-- Two first orders for `1e-30` BTC both insert a position: their margin is lost in the 28 digits
of `margin_used`, so they lock nothing (orders for 1 BTC wait for each other:
`stillFirst_of_moves`). A third order finds two, after the exchange has accepted it. -/
theorem two_live_positions :
    ∃ s, (orderSessions config (.numeric 8) fun w => OneLive w.db).Reach s ∧ ¬OneLive s.1.db ∧
      s.1.placed.length = 3 ∧ failures s.2 = [.multipleResults] := by
  let f := lockedExec orderLocks (Task.step config (.numeric 8)) fun _ _ _ => True
  have hrun : (bothFirst.foldlM f (btcOrders 1 (-30) 3)).map
      (fun s => ((s.1.db.livePositionsOf 1 "BTCUSDT").length, s.1.placed.length, failures s.2)) =
        some (2, 3, [.multipleResults]) := by decide +kernel
  obtain ⟨s, hs, h⟩ := Option.map_eq_some_iff.mp hrun
  simp only [Prod.mk.injEq] at h
  obtain ⟨hlive, hplaced, hfail⟩ := h
  have hreach : ((orderSessions config (.numeric 8) fun w => OneLive w.db).restrict
      (StepMeets fun _ _ _ => True)).Reach s :=
    .foldlM (f := f) (fun _ _ _ _ h => lockedExec_step h)
      (.init (btcOrders_init (.numeric 8) 1 (-30) 3)) hs
  refine ⟨s, hreach.of_restrict, fun ho => ?_, hplaced, hfail⟩
  have := ho 1 "BTCUSDT"
  omega

open Sample in
/-- Two orders one after the other are one position. -/
theorem one_live_position_inTurn :
    ∃ s, ((orderSessions config (.numeric 8) fun w => OneLive w.db).restrict
        (StepMeets StillFirst)).Reach s ∧ s.2.all Next.isDone ∧ failures s.2 = [] ∧
      OneLive s.1.db := by
  let f := lockedExec orderLocks (Task.step config (.numeric 8)) StillFirst
  have hrun : (firstThenSecond.foldlM f (btcOrders 1 0 2)).map
      (fun s => (s.2.all Next.isDone, failures s.2)) = some (true, []) := by decide +kernel
  obtain ⟨s, hs, h⟩ := Option.map_eq_some_iff.mp hrun
  obtain ⟨hdone, hfail⟩ := Prod.mk.inj h
  have hreach : ((orderSessions config (.numeric 8) fun w => OneLive w.db).restrict
      (StepMeets StillFirst)).Reach s :=
    .foldlM (f := f) (fun _ _ _ _ h => lockedExec_step h)
      (.init (btcOrders_init (.numeric 8) 1 0 2)) hs
  exact ⟨s, hreach, hdone, hfail, (one_live_position hreach).1⟩

end CryptoExchange
