import CryptoExchange.Audit.Storage
import CryptoExchange.Audit.Tampering

/-!
# What the hash covers

`_compute_row_hash` hashes five of the fields of a row, and `verify_audit_chain` passes over a row
without a hash.

* `isoformat_injective`: the text of a time tells the time.
* `Change`: one column of one row of the log gets another value.
* `Change.Covered`: the columns that are hashed, with a value that is read as another one, and
  another `row_hash`.
* `change_broken_iff`: the walk finds exactly these changes. `change_not_covered` makes the others.
-/

namespace CryptoExchange

open Lib

/-- A number in a text, up to the separator behind it. -/
theorem padLeft_cons {w n n' : ℕ} {c : Char} {r r' : List Char} (hc : c.isDigit = false)
    (h : padLeft w (Nat.toDigits 10 n) ++ c :: r = padLeft w (Nat.toDigits 10 n') ++ c :: r') :
    n = n' ∧ r = r' := by
  obtain ⟨hn, hr⟩ := padLeft_append (by simpa using hc) (by simpa using hc) h
  exact ⟨hn, (List.cons.inj hr).2⟩

theorem DateTime.isoformat_injective : Function.Injective DateTime.isoformat := by
  rintro ⟨y, mo, d, h, mi, s, us⟩ ⟨y', mo', d', h', mi', s', us'⟩ he
  have hyear := String.ofList_injective he
  simp only [List.append_assoc, List.cons_append] at hyear
  obtain ⟨rfl, hmonth⟩ := padLeft_cons rfl hyear
  obtain ⟨rfl, hday⟩ := padLeft_cons rfl hmonth
  obtain ⟨rfl, hhour⟩ := padLeft_cons rfl hday
  obtain ⟨rfl, hminute⟩ := padLeft_cons rfl hhour
  obtain ⟨rfl, hsecond⟩ := padLeft_cons rfl hminute
  have hhead : ∀ us : ℕ, ∀ c ∈ ((if us = 0 then [] else
      '.' :: padLeft 6 (Nat.toDigits 10 us)) ++ "+00:00".toList).head?, c.isDigit = false := by
    intro us c hc
    split at hc <;> simp at hc <;> subst hc <;> decide
  obtain ⟨rfl, hend⟩ := padLeft_append (hhead us) (hhead us') hsecond
  have hus : us = us' := by
    -- the microseconds are left out when they are 0
    split at hend <;> split at hend
    · rename_i h0 h0'
      rw [h0, h0']
    · simp at hend
    · simp at hend
    · exact (padLeft_cons rfl (List.cons.inj hend).2).1
  rw [hus]

/-! ## Changes -/

/-- Another value for one column. -/
inductive Change where
  | eventType (v : String)
  | actorId (v : Option ℤ)
  | actorUsername (v : Option String)
  | targetType (v : Option String)
  | targetId (v : Option String)
  | ipAddress (v : Option String)
  | eventData (v : Option Dict)
  | severity (v : String)
  | createdAt (v : DateTime)
  | prevHash (v : Option String)
  | rowHash (v : Option String)

namespace Change

def apply (r : AuditLog) : Change → AuditLog
  | .eventType v => { r with eventType := v }
  | .actorId v => { r with actorId := v }
  | .actorUsername v => { r with actorUsername := v }
  | .targetType v => { r with targetType := v }
  | .targetId v => { r with targetId := v }
  | .ipAddress v => { r with ipAddress := v }
  | .eventData v => { r with eventData := v }
  | .severity v => { r with severity := v }
  | .createdAt v => { r with createdAt := v }
  | .prevHash v => { r with prevHash := v }
  | .rowHash v => { r with rowHash := v }

@[simp] theorem apply_id (ch : Change) (r : AuditLog) : (ch.apply r).id = r.id := by
  cases ch <;> rfl

/-- The column is hashed, and what is read from it is another value; or the hash is another one. -/
def Covered (r : AuditLog) : Change → Prop
  | .eventType v => v ≠ r.eventType
  | .actorId v => v ≠ r.actorId
  | .eventData v => (Json.obj (v.getD [])).stored.sortKeys ≠ r.data.stored.sortKeys
  | .createdAt v => v ≠ r.createdAt
  | .prevHash v => v.getD "" ≠ r.prevHash.getD ""
  | .rowHash v => v ≠ none ∧ v ≠ r.rowHash
  | _ => False

end Change

theorem jsonInt?_injective : Function.Injective jsonInt? := by
  rintro (_ | a) (_ | b) h
  · rfl
  · cases h
  · cases h
  · cases h; rfl

/-- The row passes the walk. -/
def AuditLog.Passes (sha : List Char → String) (r : AuditLog) : Prop :=
  ∀ h ∈ r.rowHash, r.readBack.hash sha = h

section

variable {sha : List Char → String}

theorem Written.passes_iff (hsha : Function.Injective sha) {r : AuditLog} (h : Written sha r) :
    r.Passes sha ↔ r.Kept := by
  have hhash := hash_readBack sha r h.distinct
  unfold AuditLog.Passes
  rw [h.hashed]
  simp only [Option.mem_def, Option.some.injEq, forall_eq']
  exact ⟨hhash.2 hsha, hhash.1⟩

/-- **A changed row** passes exactly when the change is not covered. -/
theorem Written.passes_change_iff (hsha : Function.Injective sha) {r : AuditLog}
    (h : Written sha r) (hk : r.Kept) (ch : Change) :
    (ch.apply r).Passes sha ↔ ¬ch.Covered r := by
  have hown : r.readBack.hash sha = r.hash sha := (hash_readBack sha r h.distinct).1 hk
  have hpass : ∀ r' : AuditLog, r'.rowHash = r.rowHash →
      (r'.Passes sha ↔ (hashPayload r'.eventType r'.actorId r'.createdAt r'.readBack.eventData
        r'.prevHash).dumps = (hashPayload r.eventType r.actorId r.createdAt r.readBack.eventData
        r.prevHash).dumps) := by
    intro r' he
    unfold AuditLog.Passes
    rw [he, h.hashed, ← hown]
    simp only [Option.mem_def, Option.some.injEq, forall_eq']
    exact hsha.eq_iff
  cases ch with
  | eventType v | actorId v | createdAt v | prevHash v =>
    rw [hpass (Change.apply r _) rfl, dumps_payload_inj]
    simp [Change.apply, Change.Covered, AuditLog.readBack, jsonInt?_injective.eq_iff,
      DateTime.isoformat_injective.eq_iff]
  | actorUsername v | targetType v | targetId v | ipAddress v | severity v =>
    rw [hpass (Change.apply r _) rfl, dumps_payload_inj]
    simp [Change.apply, Change.Covered, AuditLog.readBack]
  | eventData v =>
    rw [hpass (Change.apply r _) rfl, dumps_payload_inj]
    have hread := data_readBack (Change.apply r (.eventData v))
    have hread' := data_readBack r
    change Json.obj ((Change.apply r (.eventData v)).readBack.eventData.getD []) = _ at hread
    change Json.obj (r.readBack.eventData.getD []) = _ at hread'
    rw [hread, hread', Json.dumps_inj]
    simp [Change.apply, Change.Covered, AuditLog.data, AuditLog.event, Event.data]
  | rowHash v =>
    cases v with
    | none => simp [AuditLog.Passes, Change.apply, Change.Covered]
    | some x =>
      simp only [AuditLog.Passes, Change.apply, Change.Covered, Option.mem_def, Option.some.injEq,
        forall_eq', ne_eq, reduceCtorEq, not_false_eq_true, true_and, not_not, h.hashed]
      rw [← hown, eq_comm]
      rfl

/-! ## The walk -/

/-- Updates that keep the ids keep the order. -/
theorem firstRows_map {g : AuditLog → AuditLog} (hg : ∀ r, (g r).id = r.id) (limit : ℕ)
    (rows : List AuditLog) : firstRows limit (rows.map g) = (firstRows limit rows).map g := by
  rw [firstRows, firstRows, orderById, orderById, List.map_take]
  rw [List.map_insertionSort (fun a b : AuditLog => a.id ≤ b.id) (fun a b => a.id ≤ b.id)]
  intro a _ b _
  rw [hg, hg]

theorem firstRows_modify {f : AuditLog → AuditLog} (hf : ∀ r, (f r).id = r.id) (id limit : ℕ)
    (rows : List AuditLog) :
    firstRows limit (modify AuditLog.id id f rows) =
      modify AuditLog.id id f (firstRows limit rows) := by
  refine firstRows_map (fun r => ?_) limit rows
  split
  · exact hf r
  · rfl

/-- Every row but the changed one is as `_write` wrote it. -/
theorem verify_change_ok_iff (hsha : Function.Injective sha) {rows : List AuditLog}
    (hw : ∀ r ∈ rows, Written sha r) (hkey : Keyed AuditLog.id rows) {limit : ℕ} {r : AuditLog}
    (hr : r ∈ firstRows limit rows) (hk : r.Kept) (ch : Change) :
    (verifyAuditChain sha limit (modify AuditLog.id r.id ch.apply rows)).integrity = .ok ↔
      ¬ch.Covered r ∧ ∀ x ∈ firstRows limit rows, x.id ≠ r.id → x.Kept := by
  have hown := (hw r (mem_firstRows hr)).passes_change_iff hsha hk ch
  rw [verify_ok_iff, firstRows_modify (Change.apply_id ch)]
  change (∀ y ∈ modify AuditLog.id r.id ch.apply (firstRows limit rows), y.Passes sha) ↔ _
  rw [← hown]
  constructor
  · intro h
    refine ⟨h _ (mem_modify.mpr ⟨r, hr, if_pos rfl⟩), fun x hx hne => ?_⟩
    exact ((hw x (mem_firstRows hx)).passes_iff hsha).mp
      (h x (mem_modify.mpr ⟨x, hx, if_neg hne⟩))
  · rintro ⟨hch, hkept⟩ y hy
    obtain ⟨x, hx, rfl⟩ := mem_modify.mp hy
    split
    · rename_i hid
      rw [hkey.eq_of_key (mem_firstRows hx) (mem_firstRows hr) hid]
      exact hch
    · rename_i hne
      exact ((hw x (mem_firstRows hx)).passes_iff hsha).mpr (hkept x hx hne)

/-- **The hash covers** the five columns that are hashed: a change of one stored column of a row
within the limit is found exactly when it is covered. Another row that the storage does not keep is
found too. -/
theorem change_broken_iff (hsha : Function.Injective sha) {events : List Event}
    (hd : ∀ e ∈ events, e.data.Distinct) {s : AuditWorld × List (Next WritePhase Bool)}
    (h : (auditing sha events).Reach s) {limit : ℕ} {r : AuditLog}
    (hr : r ∈ firstRows limit s.1.rows) (hk : r.Kept) (ch : Change) :
    (verifyAuditChain sha limit (modify AuditLog.id r.id ch.apply s.1.rows)).integrity = .broken ↔
      ch.Covered r ∨ ∃ x ∈ firstRows limit s.1.rows, x.id ≠ r.id ∧ ¬x.Kept := by
  have hok := ((auditing_ok sha events).reach h).1
  rw [Integrity.broken_iff, verify_change_ok_iff hsha (hok.written sha hd) (keyed_of_ids hok.ids) hr hk ch]
  push Not
  rw [← or_iff_not_imp_left]

end

/-! ## A row with another severity -/

namespace Sample

def loginFailure : Event where
  eventType := "AUTH_LOGIN_FAILURE"
  eventData := some [("username", .str "trader_1")]
  severity := "WARN"

theorem loginFailure_distinct : ∀ e ∈ [loginFailure], e.data.Distinct := by decide

variable (e : Event)

/-- The log of one event. -/
def oneLog : AuditWorld := { entries := [oneEntry e], nextId := 2 }

def oneRow : AuditLog := (oneEntry e).row

theorem oneLog_reach : (auditing sha [e]).Reach (oneLog e, [.done true]) := oneEvent_reach e

theorem oneLog_rows : (oneLog e).rows = [oneRow e] := rfl

theorem oneRow_mem : oneRow e ∈ firstRows 500 (oneLog e).rows :=
  (firstRows_of_length (by simp [oneLog_rows])).mpr (by simp [oneLog_rows])

theorem oneRow_event : (oneRow e).event = e := rfl

theorem oneRow_hashed : (oneRow e).rowHash.isSome := rfl

theorem oneRow_kept (h : e.data.Kept) : (oneRow e).Kept := by
  rw [AuditLog.Kept, AuditLog.data, oneRow_event]
  exact h

/-- A change of the only row that is not covered. -/
theorem oneLog_passes (hd : e.data.Distinct) (hk : e.data.Kept) {ch : Change}
    (hc : ¬ch.Covered (oneRow e)) :
    (verifyAuditChain sha 500 (modify AuditLog.id (oneRow e).id ch.apply
      (oneLog e).rows)).integrity = .ok := by
  have hok := ((auditing_ok sha [e]).reach (oneLog_reach e)).1
  refine (verify_change_ok_iff sha_injective (hok.written sha (by simpa using hd))
    (keyed_of_ids hok.ids) (oneRow_mem e) (oneRow_kept e hk) ch).mpr ⟨hc, fun x hx hne => ?_⟩
  have hx := mem_firstRows hx
  rw [oneLog_rows, List.mem_singleton] at hx
  exact absurd (congrArg AuditLog.id hx) hne

end Sample

open Sample in
/-- The result for another user in the `event_data`. -/
theorem change_broken_iff_eventData :
    (verifyAuditChain sha 500 (modify AuditLog.id (oneRow loginFailure).id
      (Change.eventData (some [("username", .str "trader_2")])).apply
      (oneLog loginFailure).rows)).integrity = .broken := by
  refine (change_broken_iff sha_injective loginFailure_distinct (oneLog_reach _) (oneRow_mem _)
    (oneRow_kept _ (by decide)) (.eventData _)).mpr (.inl ?_)
  rw [Change.Covered, AuditLog.data, oneRow_event]
  simp [loginFailure, Event.data, Json.stored, Json.storedMembers, Json.sortKeys, Json.sortMembers]

open Sample in
/-- A row whose severity is another one, or that has no hash any more, passes. -/
theorem change_not_covered :
    Function.Injective sha ∧
    (auditing sha [loginFailure]).Reach (oneLog loginFailure, [.done true]) ∧
    oneRow loginFailure ∈ firstRows 500 (oneLog loginFailure).rows ∧
    (oneRow loginFailure).event.severity ≠ "INFO" ∧ (oneRow loginFailure).rowHash.isSome ∧
    (verifyAuditChain sha 500 (modify AuditLog.id (oneRow loginFailure).id
      (Change.severity "INFO").apply (oneLog loginFailure).rows)).integrity = .ok ∧
    (verifyAuditChain sha 500 (modify AuditLog.id (oneRow loginFailure).id
      (Change.rowHash none).apply (oneLog loginFailure).rows)).integrity = .ok := by
  have hd : loginFailure.data.Distinct := by decide
  have hk : loginFailure.data.Kept := by decide
  refine ⟨sha_injective, oneLog_reach _, oneRow_mem _, ?_, oneRow_hashed _,
    oneLog_passes _ hd hk id, oneLog_passes _ hd hk fun h => h.1 rfl⟩
  rw [oneRow_event]
  decide

end CryptoExchange
