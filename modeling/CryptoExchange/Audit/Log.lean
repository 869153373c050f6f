import CryptoExchange.Audit.Event
import CryptoExchange.Lib.JsonText
import CryptoExchange.Lib.Machine

/-!
# Writing the audit log

`_compute_row_hash`, `_write` and `emit` (`app/audit/service.py`), on the table `audit_logs`.

`emit` starts a task for each event, and `writeStep` is the machine of a task. The tasks share the
table and `_write_lock` (`AuditWorld`), and the log of a process is an interleaving of any number
of them (`auditing`). The awaited calls are the lock's `acquire`, the `SELECT`, the `COMMIT` (with
the `INSERT` before it) and the close of the session. An exception in any of them is logged and
ends the task; the `async with` blocks close the session and give the lock back all the same.
-/

namespace CryptoExchange

open Lib

/-! ## The table -/

/-- A `datetime` in UTC. -/
structure DateTime where
  year : ℕ
  month : ℕ
  day : ℕ
  hour : ℕ
  minute : ℕ
  second : ℕ
  microsecond : ℕ
  deriving DecidableEq

def DateTime.isoformat (t : DateTime) : String :=
  let pad (width n : ℕ) : List Char := padLeft width (Nat.toDigits 10 n)
  String.ofList (pad 4 t.year ++ '-' :: pad 2 t.month ++ '-' :: pad 2 t.day ++ 'T' ::
    pad 2 t.hour ++ ':' :: pad 2 t.minute ++ ':' :: pad 2 t.second ++
    (if t.microsecond = 0 then [] else '.' :: pad 6 t.microsecond) ++ "+00:00".toList)

/-- A row of `audit_logs`. -/
structure AuditLog where
  id : ℕ
  eventType : String
  actorId : Option ℤ
  actorUsername : Option String
  targetType : Option String
  targetId : Option String
  ipAddress : Option String
  eventData : Option Dict
  severity : String
  createdAt : DateTime
  prevHash : Option String
  rowHash : Option String

/-- The event that a row records. -/
def AuditLog.event (r : AuditLog) : Event where
  eventType := r.eventType
  actorId := r.actorId
  actorUsername := r.actorUsername
  targetType := r.targetType
  targetId := r.targetId
  ipAddress := r.ipAddress
  eventData := r.eventData
  severity := r.severity

section

variable (sha : List Char → String)

/-- What `_compute_row_hash` hashes. -/
def hashPayload (eventType : String) (actorId : Option ℤ) (createdAt : DateTime)
    (eventData : Option Dict) (prevHash : Option String) : Json :=
  .obj
    [("event_type", .str eventType), ("actor_id", jsonInt? actorId),
     ("created_at", .str createdAt.isoformat), ("event_data", .obj (eventData.getD [])),
     ("prev_hash", .str (prevHash.getD ""))]

/-- `sha` is `hashlib.sha256(...).hexdigest()`. -/
def computeRowHash (eventType : String) (actorId : Option ℤ) (createdAt : DateTime)
    (eventData : Option Dict) (prevHash : Option String) : String :=
  sha (hashPayload eventType actorId createdAt eventData prevHash).dumps

/-- The hash of the row's own fields. -/
def AuditLog.hash (r : AuditLog) : String :=
  computeRowHash sha r.eventType r.actorId r.createdAt r.eventData r.prevHash

/-- `ORDER BY id ASC`. -/
def orderById (rows : List AuditLog) : List AuditLog := rows.insertionSort fun a b => a.id ≤ b.id

/-- `SELECT row_hash ... ORDER BY id DESC LIMIT 1` with `scalar_one_or_none`. -/
def latestHash (rows : List AuditLog) : Option String :=
  (rows.insertionSort fun a b => b.id ≤ a.id).head?.bind AuditLog.rowHash

/-! ## A task -/

/-- A row with the number of the task that wrote it, which no step reads. -/
structure Entry where
  writer : ℕ
  row : AuditLog

/-- What the tasks share. -/
structure AuditWorld where
  entries : List Entry := []
  /-- The next value of the sequence for `id`. -/
  nextId : ℕ := 1
  /-- `_write_lock`: the task that holds it. -/
  lock : Option ℕ := none

def AuditWorld.rows (w : AuditWorld) : List AuditLog := w.entries.map Entry.row

/-- What an awaited call answers. -/
structure WriteAnswer where
  /-- The call raises. -/
  fails : Bool := false
  /-- A commit that raises when the row is already stored. -/
  persisted : Bool := false
  /-- Values of the sequence that went to no row. -/
  skipped : ℕ := 0
  /-- `datetime.now(UTC)`. -/
  now : DateTime := ⟨1970, 1, 1, 0, 0, 0, 0⟩

/-- Where a task is; tasks are numbered in the order of their `emit`. -/
inductive WritePhase where
  | acquire (task : ℕ) (e : Event)
  | selectLatest (task : ℕ) (e : Event)
  | commit (task : ℕ) (e : Event) (now : DateTime) (prevHash : Option String) (rowHash : String)
  | close (task : ℕ) (failed : Bool)

def Event.row (e : Event) (id : ℕ) (now : DateTime) (prevHash : Option String) (rowHash : String) :
    AuditLog where
  id
  eventType := e.eventType
  actorId := e.actorId
  actorUsername := e.actorUsername
  targetType := e.targetType
  targetId := e.targetId
  ipAddress := e.ipAddress
  eventData := e.eventData
  severity := e.severity
  createdAt := now
  prevHash
  rowHash := some rowHash

/-- The result tells whether no call has raised. -/
def writeStep (w : AuditWorld) (ans : WriteAnswer) : WritePhase → AuditWorld × Next WritePhase Bool
  | .acquire i e =>
    if ans.fails then (w, .done false)
    else if w.lock.isSome then (w, .await (.acquire i e))
    else ({ w with lock := some i }, .await (.selectLatest i e))
  | .selectLatest i e =>
    if ans.fails then (w, .await (.close i true))
    else
      let prevHash := latestHash w.rows
      (w, .await (.commit i e ans.now prevHash
        (computeRowHash sha e.eventType e.actorId ans.now e.eventData prevHash)))
  | .commit i e now prevHash rowHash =>
    let id := w.nextId + ans.skipped
    if ans.fails ∧ !ans.persisted then ({ w with nextId := id }, .await (.close i true))
    else
      ({ w with
          entries := w.entries ++ [⟨i, e.row id now prevHash rowHash⟩]
          nextId := id + 1 }, .await (.close i ans.fails))
  | .close _ failed => ({ w with lock := none }, .done (!failed && !ans.fails))

/-- `emit` was called for the events, in this order; the table is empty. -/
def auditing (events : List Event) : Sys :=
  interleave (writeStep sha) fun w ts => w.entries = [] ∧ w.lock = none ∧
    ts = events.mapIdx fun i e => .await (.acquire i e)

end

end CryptoExchange
