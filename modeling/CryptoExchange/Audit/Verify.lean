import CryptoExchange.Audit.Chain
import CryptoExchange.Lib.Jsonb

/-!
# Verifying the log

`verify_audit_chain` (`app/audit/routes.py`), on the rows as they are read back from the columns of
`audit_logs`. `timestamptz` keeps microseconds and is read in UTC, so `created_at` comes back as it
was written; `event_data` comes back as `Json.stored` says.

The walk recomputes the hash of each row by itself (`verify_ok_iff`). For a row that `_write` wrote
it is the row's hash exactly when the floats of its `event_data` survive the storage
(`hash_readBack_iff`).
-/

namespace CryptoExchange

open Lib

/-! ## The route -/

/-- The row as it is read from the table. -/
def AuditLog.readBack (r : AuditLog) : AuditLog :=
  { r with eventData := r.eventData.map fun d => (Json.storedMembers d).insertionSort Json.keyOrder }

inductive Integrity where
  | ok
  | broken
  deriving DecidableEq

def Integrity.text : Integrity → String
  | .ok => "OK"
  | .broken => "BROKEN"

structure VerifyReply where
  integrity : Integrity
  brokenAtId : Option ℕ := none
  checked : ℕ
  deriving DecidableEq

variable (sha : List Char → String)

/-- The loop over the rows, with `checked` so far. -/
def verifyRows : List AuditLog → ℕ → VerifyReply
  | [], checked => { integrity := .ok, checked }
  | row :: rows, checked =>
    match row.rowHash with
    | none => verifyRows rows (checked + 1)
    | some rowHash =>
      if row.hash sha ≠ rowHash then
        { integrity := .broken, brokenAtId := some row.id, checked }
      else verifyRows rows (checked + 1)

/-- `ORDER BY id ASC LIMIT limit`. -/
def firstRows (limit : ℕ) (rows : List AuditLog) : List AuditLog := (orderById rows).take limit

def verifyAuditChain (limit : ℕ) (rows : List AuditLog) : VerifyReply :=
  verifyRows sha ((firstRows limit rows).map AuditLog.readBack) 0

/-! ## What the walk tells -/

theorem verifyRows_ok_iff {rows : List AuditLog} {checked : ℕ} :
    (verifyRows sha rows checked).integrity = .ok ↔
      ∀ r ∈ rows, ∀ h ∈ r.rowHash, r.hash sha = h := by
  induction rows generalizing checked with
  | nil => simp [verifyRows]
  | cons row rows ih =>
    unfold verifyRows
    split
    · rename_i hn
      simp [ih, hn]
    · rename_i rowHash hs
      split
      · rename_i hne
        simp [hs, hne]
      · rename_i heq
        simp [ih, hs, not_not.mp heq]

/-- Every row is checked by itself. -/
theorem verify_ok_iff {limit : ℕ} {rows : List AuditLog} :
    (verifyAuditChain sha limit rows).integrity = .ok ↔
      ∀ r ∈ firstRows limit rows, ∀ h ∈ r.rowHash, r.readBack.hash sha = h := by
  rw [verifyAuditChain, verifyRows_ok_iff]
  simp [AuditLog.readBack]

/-! ## A row that was stored -/

/-- The `event_data` that is hashed. -/
def Event.data (e : Event) : Json := .obj (e.eventData.getD [])

def AuditLog.data (r : AuditLog) : Json := r.event.data

/-- Every float in the row's `event_data` is kept. -/
def AuditLog.Kept (r : AuditLog) : Prop := r.data.Kept

theorem data_readBack (r : AuditLog) : r.readBack.data = r.data.stored := by
  obtain ⟨-, -, -, -, -, -, -, eventData, -, -, -, -⟩ := r
  cases eventData <;> rfl

/-- The payload tells the five fields apart, up to what `or` makes of an empty one. -/
theorem dumps_payload_inj {t t' : String} {a a' : Option ℤ} {c c' : DateTime} {d d' : Option Dict}
    {p p' : Option String} :
    (hashPayload t a c d p).dumps = (hashPayload t' a' c' d' p').dumps ↔
      t = t' ∧ jsonInt? a = jsonInt? a' ∧ c.isoformat = c'.isoformat ∧
        (Json.obj (d.getD [])).dumps = (Json.obj (d'.getD [])).dumps ∧ p.getD "" = p'.getD "" := by
  have hint : ∀ a : Option ℤ, (jsonInt? a).sortKeys = jsonInt? a := by
    rintro (_ | a) <;> rfl
  rw [Json.dumps_inj, Json.dumps_inj, hashPayload, hashPayload,
    Json.sortKeys_obj_inj (by simp [Keyed]) (by simp)]
  simp only [List.map_cons, List.map_nil, Prod.map, List.cons.injEq, Prod.mk.injEq, id_eq,
    true_and, and_true, hint, Json.sortKeys_str, Json.str.injEq]

/-- **A row's hash** is recomputed exactly when its data is kept. -/
theorem hash_readBack (r : AuditLog) (hd : r.data.Distinct) :
    (r.Kept → r.readBack.hash sha = r.hash sha) ∧
      (Function.Injective sha → r.readBack.hash sha = r.hash sha → r.Kept) := by
  have hpayload : (hashPayload r.eventType r.actorId r.createdAt r.readBack.eventData
      r.prevHash).dumps = (hashPayload r.eventType r.actorId r.createdAt r.eventData
      r.prevHash).dumps ↔ r.Kept := by
    rw [dumps_payload_inj, AuditLog.Kept, ← Json.dumps_stored hd, ← data_readBack]
    simp only [true_and, and_true]
    rfl
  exact ⟨fun hk => congrArg sha (hpayload.mpr hk), fun hsha h => hpayload.mp (hsha h)⟩

/-! ## The rows of a log -/

theorem mem_firstRows {limit : ℕ} {rows : List AuditLog} {r : AuditLog}
    (h : r ∈ firstRows limit rows) : r ∈ rows :=
  (List.mem_insertionSort _).mp (List.mem_of_mem_take h)

/-- The row is one that `_write` wrote. -/
structure Written (r : AuditLog) : Prop where
  hashed : r.rowHash = some (r.hash sha)
  distinct : r.data.Distinct

theorem LogOk.written {events : List Event} {w : AuditWorld} (h : LogOk sha events w)
    (hd : ∀ e ∈ events, e.data.Distinct) : ∀ r ∈ w.rows, Written sha r := by
  intro r hr
  obtain ⟨x, hx, rfl⟩ := List.mem_map.mp hr
  exact ⟨h.hashed _ hr, hd _ (List.mem_of_getElem? (h.recorded x hx))⟩

end CryptoExchange
