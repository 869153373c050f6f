import CryptoExchange.Audit.Log
import CryptoExchange.Regulator.Record

/-!
# The ledger snapshot

`get_ledger_snapshot` (`app/services/regulator_service.py`) reads the live positions, the recent
trades and the last audit rows with three queries of one session. Each sees the state that is
committed at its moment (`READ COMMITTED`), and other sessions commit in between.

* `Committed`: the tables that it reads. Rows with equal times come in any order (`tie`).
* `bookkeeping`: any number of `create_order` and `close_position` calls, of audit writers and of
  snapshots, interleaved. A writer may wait at its first call as long as it likes, so the writers
  of a run are there from the start.
* `OneMoment`: one of the states that were committed gives all three parts.
* `snapshot_one_moment`: so it is where nothing moves under a snapshot (`StillGiven`).
  `snapshot_torn` commits an order between two of the queries.
-/

namespace CryptoExchange

open Lib Db

/-! ## The queries -/

/-- `updatedAt` and `createdAt` are columns of the positions and of the trades. -/
structure Committed where
  db : Db
  updatedAt : ℕ → ℕ
  createdAt : ℕ → ℕ
  log : List AuditLog

structure PositionItem where
  id : ℕ
  userId : ℤ
  symbol : String
  quantity : String
  entryPrice : String
  notional : String
  margin : String
  marginType : String
  deriving DecidableEq

structure TradeItem where
  id : ℕ
  userId : ℤ
  symbol : String
  side : String
  size : String
  price : String
  notional : String
  createdAt : ℕ
  deriving DecidableEq

structure AuditItem where
  id : ℕ
  eventType : String
  actorId : Option ℤ
  severity : String
  createdAt : String
  rowHash : Option String
  deriving DecidableEq

def Position.item (cfg : Config) (p : Position) : PositionItem where
  id := p.id
  userId := p.userId
  symbol := p.symbol
  quantity := cfg.decimal p.quantity
  entryPrice := cfg.decimal p.entryPrice
  notional := cfg.decimal p.notional
  margin := cfg.decimal p.margin
  marginType := p.marginType.text

def Trade.item (cfg : Config) (createdAt : ℕ → ℕ) (t : Trade) : TradeItem where
  id := t.id
  userId := t.userId
  symbol := t.symbol
  side := t.side.text
  size := cfg.decimal t.size
  price := cfg.decimal t.price
  notional := cfg.decimal t.notional
  createdAt := createdAt t.id

def AuditLog.item (r : AuditLog) : AuditItem where
  id := r.id
  eventType := r.eventType
  actorId := r.actorId
  severity := r.severity
  createdAt := r.createdAt.isoformat
  rowHash := r.rowHash

/-- The rows in the order in which a scan meets them. -/
def scanned {α : Type} (key : α → ℕ) (tie : ℕ → ℕ) (rows : List α) : List α :=
  rows.mergeSort fun x y => tie (key x) ≤ tie (key y)

namespace Committed

variable (cfg : Config) (tie : ℕ → ℕ) (b : Committed)

def livePositions : List PositionItem :=
  (latestFirst (fun p : Position => b.updatedAt p.id)
    (scanned Position.id tie b.db.livePositions)).map (Position.item cfg)

def recentTrades : List TradeItem :=
  ((latestFirst (fun t : Trade => b.createdAt t.id)
    (scanned Trade.id tie b.db.trades)).take 100).map (Trade.item cfg b.createdAt)

/-- `ORDER BY id DESC LIMIT 50`. -/
def auditTail : List AuditItem :=
  ((b.log.insertionSort fun x y => y.id ≤ x.id).take 50).map AuditLog.item

@[simp] theorem length_livePositions :
    (b.livePositions cfg tie).length = b.db.livePositions.length := by
  simp [livePositions, latestFirst, scanned]

@[simp] theorem length_recentTrades :
    (b.recentTrades cfg tie).length = min 100 b.db.trades.length := by
  simp [recentTrades, latestFirst, scanned]

/-- The query for the positions can answer so. -/
def GivesPositions (P : List PositionItem) : Prop := ∃ tie, b.livePositions cfg tie = P

/-- The query for the trades can answer so. -/
def GivesTrades (T : List TradeItem) : Prop := ∃ tie, b.recentTrades cfg tie = T

end Committed

/-! ## The sessions -/

/-- The dict of `get_ledger_snapshot`. -/
structure Snapshot where
  snapshotAt : String
  livePositions : List PositionItem
  recentTrades : List TradeItem
  auditTail : List AuditItem

/-- What a call of the sessions answers; each call reads the fields that concern it. -/
structure BooksAnswer where
  ledger : Answer := {}
  write : WriteAnswer := {}
  /-- A query of the snapshot raises. -/
  fails : Bool := false
  /-- The order in which a scan meets the rows. -/
  tie : ℕ → ℕ := id
  /-- The times that a commit gives to the rows that it writes. -/
  updatedAt : ℕ → ℕ := fun _ => 0
  createdAt : ℕ → ℕ := fun _ => 0

namespace GetLedgerSnapshot

inductive Phase where
  | positions (snapshotAt : String)
  | trades (snapshotAt : String) (positions : List PositionItem)
  | audit (snapshotAt : String) (positions : List PositionItem) (trades : List TradeItem)

def step (cfg : Config) (b : Committed) (a : BooksAnswer) :
    Phase → Next Phase (Except Failure Snapshot)
  | .positions snapshotAt =>
    if a.fails then .done (.error .database)
    else .await (.trades snapshotAt (b.livePositions cfg a.tie))
  | .trades snapshotAt positions =>
    if a.fails then .done (.error .database)
    else .await (.audit snapshotAt positions (b.recentTrades cfg a.tie))
  | .audit snapshotAt positions trades =>
    if a.fails then .done (.error .database)
    else .done (.ok
      { snapshotAt, livePositions := positions, recentTrades := trades, auditTail := b.auditTail })

end GetLedgerSnapshot

/-- What the sessions share. -/
structure BooksWorld where
  world : World
  audit : AuditWorld
  updatedAt : ℕ → ℕ
  createdAt : ℕ → ℕ
  /-- The states that were committed, which no step reads. -/
  committed : List Committed

namespace BooksWorld

variable (g : BooksWorld)

/-- What a query sees. -/
def now : Committed := ⟨g.world.db, g.updatedAt, g.createdAt, g.audit.rows⟩

def record : BooksWorld := { g with committed := g.committed ++ [g.now] }

end BooksWorld

/-- The position whose `updated_at` the statement sets. -/
def Write.positionId : Write → Option ℕ
  | .insertPosition p => some p.id
  | .setQuantity id _ | .setEntryPrice id _ | .setNotional id _ | .setMargin id _ => some id
  | .setLiquidated id _ | .setMarginType id _ => some id
  | _ => none

def Write.tradeId : Write → Option ℕ
  | .insertTrade t => some t.id
  | _ => none

/-- The unit of work that the call commits in its next step. -/
def Task.writes {cfg : Config} (a : Answer) : Task cfg → List Write
  | .createOrder (.commit s position) => s.writes position a.rowId a.tradeId
  | .closePosition (.commit s closePrice account orderId) =>
    s.writes closePrice account orderId a.tradeId
  | _ => []

/-- The rows with these ids get new times. -/
def stamp (ids : List ℕ) (was now : ℕ → ℕ) : ℕ → ℕ := fun id => if id ∈ ids then now id else was id

inductive BooksTask (cfg : Config) where
  | ledger (t : Task cfg)
  | write (p : WritePhase)
  | snapshot (p : GetLedgerSnapshot.Phase)

inductive BooksReply where
  | ledger (r : Except Failure Reply)
  | write (ok : Bool)
  | snapshot (r : Except Failure Snapshot)

section

variable (sha : List Char → String) (cfg : Config) (c : Column)

def BooksTask.step (g : BooksWorld) (a : BooksAnswer) :
    BooksTask cfg → BooksWorld × Next (BooksTask cfg) BooksReply
  | .ledger t =>
    let (world, n) := Task.step cfg c g.world a.ledger t
    let ws := if world.db = g.world.db then [] else t.writes a.ledger
    ({ g with
        world
        updatedAt := stamp (ws.filterMap Write.positionId) g.updatedAt a.updatedAt
        createdAt := stamp (ws.filterMap Write.tradeId) g.createdAt a.createdAt }.record,
      n.map .ledger .ledger)
  | .write p =>
    let (audit, n) := writeStep sha g.audit a.write p
    ({ g with audit }.record, n.map .write .write)
  | .snapshot p => (g, (GetLedgerSnapshot.step cfg g.now a p).map .snapshot .snapshot)

/-- A session that begins. -/
inductive BooksTask.Begins : BooksTask cfg → Prop
  | createOrder (payload : OrderCreate) : Begins (.ledger (.createOrder (.selectUser payload)))
  | closePosition (userId : ℤ) (symbol : String) :
      Begins (.ledger (.closePosition (.selectPosition userId symbol)))
  | write (task : ℕ) (e : Event) : Begins (.write (.acquire task e))
  | snapshot (snapshotAt : String) : Begins (.snapshot (.positions snapshotAt))

/-- The sessions, in any order of their steps. -/
def bookkeeping : Sys :=
  interleave (BooksTask.step sha cfg c) fun g ts =>
    g.committed = [g.now] ∧ ∀ t ∈ ts, ∃ p, t = .await p ∧ p.Begins

/-- The tables, and how far the sessions have come. -/
abbrev BooksState : Type := BooksWorld × List (Next (BooksTask cfg) BooksReply)

/-- One state that was committed gives the three parts. -/
def OneMoment (g : BooksWorld) (r : Snapshot) : Prop :=
  ∃ b ∈ g.committed, b.GivesPositions cfg r.livePositions ∧ b.GivesTrades cfg r.recentTrades ∧
    b.auditTail = r.auditTail

/-- A snapshot reads the trades while the positions are as it has read them. A row is added to the
log only while both are as the snapshots that are about to read the log have read them. -/
def StillGiven (s : BooksState cfg) (act : ℕ × BooksAnswer) : Prop :=
  (∀ t P, s.2[act.1]? = some (.await (.snapshot (.trades t P))) → s.1.now.GivesPositions cfg P) ∧
  ∀ i e now prevHash rowHash,
    s.2[act.1]? = some (.await (.write (.commit i e now prevHash rowHash))) →
    ∀ t P T, .await (.snapshot (.audit t P T)) ∈ s.2 →
      s.1.now.GivesPositions cfg P ∧ s.1.now.GivesTrades cfg T

end

/-! ## Steps -/

variable {sha : List Char → String} {cfg : Config} {c : Column}

/-- Only a commit changes the table. -/
theorem writeStep_rows {w : AuditWorld} {a : WriteAnswer} {p : WritePhase}
    (hp : ∀ i e now prevHash rowHash, p ≠ .commit i e now prevHash rowHash) :
    (writeStep sha w a p).1.rows = w.rows := by
  cases p with
  | commit i e now prevHash rowHash => exact absurd rfl (hp i e now prevHash rowHash)
  | acquire i e =>
    simp only [writeStep]
    split
    · rfl
    · split <;> rfl
  | selectLatest i e =>
    simp only [writeStep]
    split <;> rfl
  | close i failed => rfl

namespace BooksWorld

variable {g g' : BooksWorld} {P : List PositionItem} {T : List TradeItem}

/-- One state that was committed gives both lists, and the log has not changed since. -/
def Fits (cfg : Config) (g : BooksWorld) (P : List PositionItem) (T : List TradeItem) : Prop :=
  ∃ b ∈ g.committed, b.GivesPositions cfg P ∧ b.GivesTrades cfg T ∧ b.log = g.audit.rows

/-- The history goes on, and has the state of now. -/
structure Extends (g g' : BooksWorld) : Prop where
  committed : g.committed ⊆ g'.committed
  now : g'.now ∈ g'.committed

theorem extends_record (h : g'.committed = g.committed) : g.Extends g'.record where
  committed := h ▸ List.subset_append_left _ _
  now := List.mem_append_right _ List.mem_cons_self

theorem Fits.of_log (h : g.Fits cfg P T) (hx : g.Extends g') (hlog : g'.audit.rows = g.audit.rows) :
    g'.Fits cfg P T := by
  obtain ⟨b, hb, hP, hT, he⟩ := h
  exact ⟨b, hx.committed hb, hP, hT, he.trans hlog.symm⟩

/-- The tables of now give both lists. -/
theorem Fits.of_now (hn : g.now ∈ g.committed) (hP : g.now.GivesPositions cfg P)
    (hT : g.now.GivesTrades cfg T) : g.Fits cfg P T :=
  ⟨g.now, hn, hP, hT, rfl⟩

end BooksWorld

theorem OneMoment.of_extends {g g' : BooksWorld} {r : Snapshot} (h : OneMoment cfg g r)
    (hx : g.Extends g') : OneMoment cfg g' r := by
  obtain ⟨b, hb, h⟩ := h
  exact ⟨b, hx.committed hb, h⟩

/-- What holds of a session, up to its end. -/
def BooksWorld.Keeps (cfg : Config) (g : BooksWorld) : Next (BooksTask cfg) BooksReply → Prop
  | .await (.snapshot (.audit _ P T)) => g.Fits cfg P T
  | .done (.snapshot (.ok r)) => OneMoment cfg g r
  | _ => True

/-- The other sessions, when the log does not change. -/
theorem BooksWorld.Keeps.of_log {g g' : BooksWorld} {t : Next (BooksTask cfg) BooksReply}
    (h : g.Keeps cfg t) (hx : g.Extends g') (hlog : g'.audit.rows = g.audit.rows) :
    g'.Keeps cfg t := by
  unfold Keeps at h ⊢
  split
  · exact Fits.of_log h hx hlog
  · exact OneMoment.of_extends h hx
  · trivial

/-- The other sessions, when a row is added to the log. -/
theorem BooksWorld.Keeps.of_now {g g' : BooksWorld} {t : Next (BooksTask cfg) BooksReply}
    (h : g.Keeps cfg t) (hx : g.Extends g') (hfits : ∀ at' P T,
      t = .await (.snapshot (.audit at' P T)) → g'.Fits cfg P T) : g'.Keeps cfg t := by
  unfold Keeps at h ⊢
  split
  · exact hfits _ _ _ rfl
  · exact OneMoment.of_extends h hx
  · trivial

/-- The sessions keep what holds of them. -/
structure Timely (cfg : Config) (s : BooksState cfg) : Prop where
  now : s.1.now ∈ s.1.committed
  keeps : ∀ t ∈ s.2, s.1.Keeps cfg t

theorem Timely.set {s : BooksState cfg} {g' : BooksWorld} {i : ℕ}
    {n : Next (BooksTask cfg) BooksReply} (hx : g'.now ∈ g'.committed) (hn : g'.Keeps cfg n)
    (hs : ∀ t ∈ s.2, g'.Keeps cfg t) : Timely cfg (g', s.2.set i n) := by
  refine ⟨hx, fun t ht => ?_⟩
  rcases List.mem_or_eq_of_mem_set ht with ht | rfl
  · exact hs t ht
  · exact hn

theorem timely_step {s s' : BooksState cfg} {act : ℕ × BooksAnswer} (h : Timely cfg s)
    (hC : StillGiven cfg s act) (hst : (bookkeeping sha cfg c).step s act s') :
    Timely cfg s' := by
  obtain ⟨p, hp, rfl⟩ := hst
  cases p with
  | ledger t =>
    have hx : s.1.Extends (BooksTask.step sha cfg c s.1 act.2 (.ledger t)).1 :=
      BooksWorld.extends_record rfl
    refine .set (s := s) hx.now ?_ fun t ht => (h.keeps t ht).of_log hx rfl
    dsimp only [BooksTask.step]
    cases (Task.step cfg c s.1.world act.2.ledger t).2 <;> trivial
  | write p =>
    have hx : s.1.Extends (BooksTask.step sha cfg c s.1 act.2 (.write p)).1 :=
      BooksWorld.extends_record rfl
    refine .set (s := s) hx.now ?_ fun t ht => ?_
    · dsimp only [BooksTask.step]
      cases (writeStep sha s.1.audit act.2.write p).2 <;> trivial
    · by_cases hcommit : ∃ i e now prevHash rowHash, p = .commit i e now prevHash rowHash
      · obtain ⟨i, e, now, prevHash, rowHash, rfl⟩ := hcommit
        refine (h.keeps t ht).of_now hx fun at' P T e => ?_
        obtain ⟨hP, hT⟩ := hC.2 _ _ _ _ _ hp at' P T (e ▸ ht)
        -- the row has joined the tables that give both lists
        exact .of_now hx.now hP hT
      · refine (h.keeps t ht).of_log hx (writeStep_rows fun i e now prevHash rowHash he => ?_)
        exact hcommit ⟨i, e, now, prevHash, rowHash, he⟩
  | snapshot p =>
    refine .set (s := s) h.now ?_ h.keeps
    have hown := h.keeps _ (List.mem_of_getElem? hp)
    cases p with
    | positions t =>
      simp only [BooksTask.step, GetLedgerSnapshot.step]
      split <;> trivial
    | trades t P =>
      simp only [BooksTask.step, GetLedgerSnapshot.step]
      split
      · trivial
      · exact BooksWorld.Fits.of_now h.now (hC.1 t P hp) ⟨_, rfl⟩
    | audit t P T =>
      simp only [BooksTask.step, GetLedgerSnapshot.step]
      split
      · trivial
      · obtain ⟨b, hb, hP, hT, hlog⟩ := hown
        refine ⟨b, hb, hP, hT, ?_⟩
        show b.auditTail = s.1.now.auditTail
        rw [Committed.auditTail, hlog]
        rfl

theorem timely (sha : List Char → String) (cfg : Config) (c : Column) :
    ((bookkeeping sha cfg c).restrict (StillGiven cfg)).Inductive (Timely cfg) where
  init s h := by
    obtain ⟨hc, hts⟩ := h
    refine ⟨by rw [hc]; exact List.mem_cons_self, fun t ht => ?_⟩
    obtain ⟨p, rfl, hp⟩ := hts t ht
    cases hp <;> trivial
  step s act s' h hst := timely_step h hst.1 hst.2

/-- **The ledger snapshot** is one point in time, in every run in which nothing moves under it. -/
theorem snapshot_one_moment {s : BooksState cfg}
    (hs : ((bookkeeping sha cfg c).restrict (StillGiven cfg)).Reach s) :
    ∀ r, .done (.snapshot (.ok r)) ∈ s.2 → OneMoment cfg s.1 r :=
  fun _ hr => ((timely sha cfg c).reach hs).keeps _ hr

/-! ## An order under a snapshot -/

namespace Sample

/-- The user buys 1 BTC, a regulator takes a snapshot, and a row is written to the log. -/
def books : BooksState config :=
  let g : BooksWorld :=
    { world := start 1000, audit := {}, updatedAt := fun _ => 0, createdAt := fun _ => 0,
      committed := [] }
  (g.record,
    [.await (.ledger (.createOrder (.selectUser (order "BTCUSDT" .buy 1 0)))),
     .await (.snapshot (.positions "2025-01-01T00:00:00+00:00")),
     .await (.write (.acquire 0 { eventType := "AUTH_LOGIN_SUCCESS" }))])

def noSha : List Char → String := fun _ => ""

theorem books_init : (bookkeeping noSha config .exact).init books := by
  refine ⟨rfl, fun t ht => ?_⟩
  simp only [books, List.mem_cons, List.not_mem_nil, or_false] at ht
  rcases ht with rfl | rfl | rfl
  · exact ⟨_, rfl, .createOrder _⟩
  · exact ⟨_, rfl, .snapshot _⟩
  · exact ⟨_, rfl, .write _ _⟩

/-- The calls of the order, with the commit at the time 1. -/
def ordering : List (ℕ × BooksAnswer) :=
  (accepted (dec 1 2) 1).map fun a =>
    (0, { ledger := a, updatedAt := fun _ => 1, createdAt := fun _ => 1 })

/-- A call of another session. -/
def plainly (i : ℕ) : ℕ × BooksAnswer := (i, {})

/-- The order commits after the query for the positions. -/
def tearing : List (ℕ × BooksAnswer) :=
  [1].map plainly ++ ordering ++ [1, 1].map plainly

/-- The row commits after the query for the trades, and the order after the row. -/
def benign : List (ℕ × BooksAnswer) :=
  [2, 2, 1, 1, 2].map plainly ++ ordering ++ [1].map plainly

def snapshots (s : BooksState config) : List Snapshot :=
  s.2.filterMap fun t =>
    match t with
    | .done (.snapshot (.ok r)) => some r
    | _ => none

theorem mem_snapshots {s : BooksState config} {r : Snapshot} (h : r ∈ snapshots s) :
    .done (.snapshot (.ok r)) ∈ s.2 := by
  obtain ⟨t, ht, e⟩ := List.mem_filterMap.mp h
  split at e
  · cases e; exact ht
  · cases e

/-- The answers of now, with the rows in the order of their ids. -/
def still (s : BooksState config) (act : ℕ × BooksAnswer) : Bool :=
  match s.2[act.1]? with
  | some (.await (.snapshot (.trades _ P))) => s.1.now.livePositions config id = P
  | some (.await (.write (.commit _ _ _ _ _))) => s.2.all fun t =>
    match t with
    | .await (.snapshot (.audit _ P T)) =>
      s.1.now.livePositions config id = P ∧ s.1.now.recentTrades config id = T
    | _ => true
  | _ => true

theorem stillGiven {s : BooksState config} {act : ℕ × BooksAnswer} (h : still s act = true) :
    StillGiven config s act := by
  unfold still at h
  refine ⟨fun t P ht => ?_, fun i e now prevHash rowHash ht t P T hm => ?_⟩
  · rw [ht] at h
    exact ⟨id, of_decide_eq_true h⟩
  · rw [ht] at h
    obtain ⟨hP, hT⟩ := of_decide_eq_true (List.all_eq_true.mp h _ hm)
    exact ⟨⟨id, hP⟩, ⟨id, hT⟩⟩

/-- A step of the sessions under the condition, computed. -/
def booksExec (s : BooksState config) (act : ℕ × BooksAnswer) : Option (BooksState config) :=
  if still s act then exec (BooksTask.step noSha config .exact) (fun _ _ _ => True) s act else none

theorem booksExec_step {s s' : BooksState config} {act : ℕ × BooksAnswer}
    (h : booksExec s act = some s') :
    ((bookkeeping noSha config .exact).restrict (StillGiven config)).step s act s' := by
  unfold booksExec at h
  split at h
  · rename_i hs
    exact ⟨stillGiven hs, (exec_step h).2⟩
  · cases h

end Sample

open Sample in
/-- The result for a snapshot with an audit row and an order between its queries. -/
theorem snapshot_one_moment_benign :
    ∃ s r, ((bookkeeping noSha config .exact).restrict (StillGiven config)).Reach s ∧
      .done (.snapshot (.ok r)) ∈ s.2 ∧ r.livePositions = [] ∧ r.auditTail.length = 1 ∧
      s.1.world.db.trades.length = 1 ∧ OneMoment config s.1 r := by
  have hrun : (benign.foldlM booksExec books).map (fun s =>
      ((snapshots s).map fun r => (r.livePositions, r.auditTail.length), s.1.world.db.trades.length)) =
        some ([([], 1)], 1) := by decide +kernel
  obtain ⟨s, hs, h⟩ := Option.map_eq_some_iff.mp hrun
  obtain ⟨hr, ht⟩ := Prod.mk.inj h
  obtain ⟨r, hrs, e⟩ := List.map_eq_singleton_iff.mp hr
  obtain ⟨hP, ha⟩ := Prod.mk.inj e
  have hmem := mem_snapshots (hrs ▸ List.mem_cons_self : r ∈ snapshots s)
  have hreach : ((bookkeeping noSha config .exact).restrict (StillGiven config)).Reach s :=
    .foldlM (fun _ _ _ _ h => booksExec_step h) (.init books_init) hs
  exact ⟨s, r, hreach, hmem, hP, ha, ht, snapshot_one_moment hreach r hmem⟩

open Sample in
/-- A snapshot with the trade of an order, and without its position. No committed state has been
so. -/
theorem snapshot_torn :
    ∃ s r, (bookkeeping noSha config .exact).Reach s ∧ .done (.snapshot (.ok r)) ∈ s.2 ∧
      r.livePositions.length = 0 ∧ r.recentTrades.length = 1 ∧ ¬OneMoment config s.1 r := by
  let f := exec (BooksTask.step noSha config .exact) fun _ _ _ => True
  have hrun : (tearing.foldlM f books).map (fun s =>
      ((snapshots s).map fun r => (r.livePositions.length, r.recentTrades.length),
        s.1.committed.all fun b => b.db.livePositions.length = b.db.trades.length)) =
        some ([(0, 1)], true) := by decide +kernel
  obtain ⟨s, hs, h⟩ := Option.map_eq_some_iff.mp hrun
  obtain ⟨hr, hall⟩ := Prod.mk.inj h
  obtain ⟨r, hrs, e⟩ := List.map_eq_singleton_iff.mp hr
  obtain ⟨hP, hT⟩ := Prod.mk.inj e
  have hmem := mem_snapshots (hrs ▸ List.mem_cons_self : r ∈ snapshots s)
  have hreach : ((bookkeeping noSha config .exact).restrict
      (StepMeets fun _ _ _ => True)).Reach s :=
    .foldlM (f := f) (fun _ _ _ _ h => exec_step h) (.init books_init) hs
  refine ⟨s, r, hreach.of_restrict, hmem, hP, hT, ?_⟩
  rintro ⟨b, hb, ⟨tie, eP⟩, ⟨tie', eT⟩, -⟩
  have heq : b.db.livePositions.length = b.db.trades.length := by
    simpa using List.all_eq_true.mp hall b hb
  rw [← eP, Committed.length_livePositions] at hP
  rw [← eT, Committed.length_recentTrades] at hT
  omega

end CryptoExchange
