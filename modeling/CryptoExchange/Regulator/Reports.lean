import CryptoExchange.Lib.JsonLoads
import CryptoExchange.Regulator.Breakdown
import CryptoExchange.Regulator.Snapshot

/-!
# Signed reports

`/regulator/overview`, `/regulator/exposure` and `/regulator/snapshot`
(`app/api/routes/regulator.py`) sign their dict with `sign_payload` (`app/core/security.py`) and
answer it with the signature in it.
The text that is signed and the text that is sent are two texts of one value.

* `Report`: the dicts of the three routes. Their values are plain (`Report.plain`).
* `recipient`: what a recipient decodes, and the bytes that it signs again.
* `reports_verify`: these are the bytes that were signed, in whatever order the keys come. Two plain
  values have the same signed bytes only if they are equal up to the order of the keys.
-/

namespace CryptoExchange

open Lib

/-! ## The dicts -/

section

-- `isoformat` of a time in UTC, and of a time without a zone
variable (isoformat isoformatNaive : ℕ → String)

def Overview.dict (o : Overview) : Dict :=
  [("total_users", .int o.totalUsers),
   ("active_positions", .int o.activePositions),
   ("total_notional_exposure", .str o.totalNotionalExposure),
   ("total_liquidations", .int o.totalLiquidations),
   ("open_compliance_alerts", .int o.openComplianceAlerts),
   ("orders_last_24h", .int o.ordersLast24h),
   ("snapshot_at", .str (isoformat o.snapshotAt))]

def SymbolExposure.dict (cfg : Config) (r : SymbolExposure) : Dict :=
  [("symbol", .str r.symbol),
   ("total_notional", .str (cfg.decimal r.totalNotional)),
   ("position_count", .int r.positionCount)]

/-- The dict of `/regulator/exposure`. -/
def exposureDict (cfg : Config) (breakdown : List SymbolExposure) (now : ℕ) : Dict :=
  [("exposure", .arr (breakdown.map fun r => .obj (r.dict cfg))),
   ("snapshot_at", .str (isoformat now))]

def PositionItem.dict (p : PositionItem) : Dict :=
  [("id", .int p.id),
   ("user_id", .int p.userId),
   ("symbol", .str p.symbol),
   ("quantity", .str p.quantity),
   ("entry_price", .str p.entryPrice),
   ("notional", .str p.notional),
   ("margin", .str p.margin),
   ("margin_type", .str p.marginType)]

/-- `created_at` is no nullable column. -/
def TradeItem.dict (t : TradeItem) : Dict :=
  [("id", .int t.id),
   ("user_id", .int t.userId),
   ("symbol", .str t.symbol),
   ("side", .str t.side),
   ("size", .str t.size),
   ("price", .str t.price),
   ("notional", .str t.notional),
   ("created_at", .str (isoformatNaive t.createdAt))]

def AuditItem.dict (a : AuditItem) : Dict :=
  [("id", .int a.id),
   ("event_type", .str a.eventType),
   ("actor_id", jsonInt? a.actorId),
   ("severity", .str a.severity),
   ("created_at", .str a.createdAt),
   ("row_hash", jsonStr? a.rowHash)]

def Snapshot.dict (s : Snapshot) : Dict :=
  [("snapshot_at", .str s.snapshotAt),
   ("live_positions", .arr (s.livePositions.map fun p => .obj p.dict)),
   ("recent_trades", .arr (s.recentTrades.map fun t => .obj (t.dict isoformatNaive))),
   ("audit_tail", .arr (s.auditTail.map fun a => .obj a.dict))]

/-- A dict that one of the three routes signs, for some state of the tables. -/
inductive Report (cfg : Config) : Dict → Prop
  | overview (db : Db) (alerts : List KpiAlert) (createdAt : ℕ → ℕ) (now : ℕ) :
      Report cfg ((getOverview cfg db alerts createdAt now).dict isoformat)
  | exposure (db : Db) (tie : String → ℕ) (now : ℕ) :
      Report cfg (exposureDict isoformat cfg (db.exposureBreakdown tie) now)
  /-- Each of the three queries sees the state that is committed at its moment. -/
  | snapshot (snapshotAt : String) (b b' b'' : Committed) (tie tie' : ℕ → ℕ) :
      Report cfg (Snapshot.dict isoformatNaive
        { snapshotAt
          livePositions := b.livePositions cfg tie
          recentTrades := b'.recentTrades cfg tie'
          auditTail := b''.auditTail })

end

/-! ## Signing and sending -/

section

-- the HMAC-SHA256 digest under `report_signature_key`
variable (hmac : ByteArray → String)

/-- The bytes that `sign_payload` signs. -/
def signedBytes (data : Dict) : ByteArray := (String.ofList (Json.obj data).dumps).toUTF8

def signPayload (data : Dict) : String := hmac (signedBytes data)

/-- `result["signature"] = sign_payload(result)`. -/
def signed (data : Dict) : Dict := Json.setKey data "signature" (.str (signPayload hmac data))

/-- The body of the response. -/
def responseBody (data : Dict) : ByteArray := (String.ofList (Json.obj data).compact).toUTF8

/-- `d.pop(k)`. -/
def pop (d : Dict) (k : String) : Option (Json × Dict) :=
  (findRow Prod.fst k d).map fun kv => (kv.2, d.filter fun kv => kv.1 ≠ k)

/-- What the recipient has when it decodes the body and takes the signature out: the signature,
and the bytes to sign. -/
def recipient (body : ByteArray) : Option (Json × ByteArray) :=
  (String.fromUTF8? body).bind fun text =>
    match Json.loads text.toList with
    | some (.obj d) => (pop d "signature").map fun (sig, data) => (sig, signedBytes data)
    | _ => none

theorem fromUTF8?_toUTF8 (s : String) : String.fromUTF8? s.toUTF8 = some s := by
  rw [String.fromUTF8?, dif_pos (c := s.toUTF8.IsValidUTF8) s.isValidUTF8]
  rfl

theorem utf8_ofList_inj {cs cs' : List Char} :
    (String.ofList cs).toUTF8 = (String.ofList cs').toUTF8 ↔ cs = cs' := by
  refine ⟨fun h => ?_, fun h => by rw [h]⟩
  have h' := congrArg String.fromUTF8? h
  rw [fromUTF8?_toUTF8, fromUTF8?_toUTF8] at h'
  exact String.ofList_injective (Option.some.inj h')

theorem signedBytes_eq_iff {a b : Dict} (hd : (Json.obj a).Distinct) :
    signedBytes a = signedBytes b ↔ (Json.obj a).Reordered (.obj b) := by
  rw [signedBytes, signedBytes, utf8_ofList_inj, Json.dumps_eq_iff hd]

section

variable {hmac} {data : Dict} (hnew : "signature" ∉ data.map Prod.fst)

include hnew

theorem signed_eq : signed hmac data = data ++ [("signature", .str (signPayload hmac data))] :=
  if_neg hnew

theorem signed_plain (hp : (Json.obj data).Plain) : (Json.obj (signed hmac data)).Plain := by
  obtain ⟨hk, hv⟩ := Json.plain_obj.mp hp
  rw [signed_eq hnew]
  refine Json.plain_obj.mpr ⟨hk.append fun kv hkv e => hnew ?_, fun kv hkv => ?_⟩
  · exact List.mem_map.mpr ⟨kv, hkv, e⟩
  · rcases List.mem_append.mp hkv with hkv | hkv
    · exact hv kv hkv
    · rw [List.mem_singleton.mp hkv]
      exact .str _

/-- Without the signature the dict is the one that was signed. -/
theorem signed_filter : (signed hmac data).filter (fun kv => kv.1 ≠ "signature") = data := by
  have hne : ∀ kv ∈ data, kv.1 ≠ "signature" :=
    fun kv hkv e => hnew (List.mem_map.mpr ⟨kv, hkv, e⟩)
  have hself : data.filter (fun kv => kv.1 ≠ "signature") = data := by
    simpa using hne
  rw [signed_eq hnew, List.filter_append, hself]
  simp

end

/-- The recipient of a plain dict that was signed. -/
theorem recipient_signed {data d : Dict} (hp : (Json.obj data).Plain)
    (hnew : "signature" ∉ data.map Prod.fst)
    (hd : (Json.obj (signed hmac data)).Reordered (.obj d)) :
    recipient (responseBody d) = some (.str (signPayload hmac data), signedBytes data) := by
  have hplain : (Json.obj (signed hmac data)).Plain := signed_plain hnew hp
  obtain ⟨hsort, -⟩ := hd.sortKeys_eq hplain.distinct
  have hplain' := hd.plain hplain
  -- the signature is still there
  have hfind : findRow Prod.fst "signature" d =
      some ("signature", .str (signPayload hmac data)) := by
    have hsigned : ("signature", Json.str (signPayload hmac data)) ∈ signed hmac data := by
      rw [signed_eq hnew]
      exact List.mem_append_right _ List.mem_cons_self
    obtain ⟨⟨k, x⟩, hmem, hkey, hval⟩ := Json.mem_of_sortKeys_obj hsort hsigned
    have hx : x = .str (signPayload hmac data) := Json.sortKeys_eq_str.mp hval
    obtain rfl : k = "signature" := hkey
    rw [hx] at hmem
    exact (Json.plain_obj.mp hplain').1.findRow hmem
  have hrest : signedBytes (d.filter fun kv => kv.1 ≠ "signature") = signedBytes data := by
    have hfilter := Json.sortKeys_filter (Json.plain_obj.mp hplain).1 (fun k => k ≠ "signature") hsort
    rw [signed_filter hnew] at hfilter
    rw [signedBytes, signedBytes, utf8_ofList_inj, Json.dumps_inj]
    exact hfilter.symm
  rw [recipient, responseBody, fromUTF8?_toUTF8, Option.bind_some, String.toList_ofList,
    Json.loads_compact hplain']
  simp only [pop, hfind, Option.map_some, hrest]

end

/-! ## The three reports -/

section

variable {isoformat isoformatNaive : ℕ → String} {cfg : Config}

theorem plain_jsonInt? (n : Option ℤ) : (jsonInt? n).Plain := by
  cases n with
  | none => exact .null
  | some n => exact .int n

theorem plain_jsonStr? (s : Option String) : (jsonStr? s).Plain := by
  cases s with
  | none => exact .null
  | some s => exact .str s

/-- A list of dicts. -/
theorem plain_dicts {α : Type} {f : α → Dict} (hf : ∀ x, (Json.obj (f x)).Plain) (xs : List α) :
    (Json.arr (xs.map fun x => .obj (f x))).Plain := by
  refine Json.plain_arr.mpr fun j hj => ?_
  obtain ⟨x, -, rfl⟩ := List.mem_map.mp hj
  exact hf x

theorem Overview.plain (o : Overview) : (Json.obj (o.dict isoformat)).Plain := by
  refine Json.plain_obj.mpr ⟨by simp [Keyed, Overview.dict], ?_⟩
  simp [Overview.dict, Json.Plain.int, Json.Plain.str]

theorem SymbolExposure.plain (r : SymbolExposure) : (Json.obj (r.dict cfg)).Plain := by
  refine Json.plain_obj.mpr ⟨by simp [Keyed, SymbolExposure.dict], ?_⟩
  simp [SymbolExposure.dict, Json.Plain.int, Json.Plain.str]

theorem PositionItem.plain (p : PositionItem) : (Json.obj p.dict).Plain := by
  refine Json.plain_obj.mpr ⟨by simp [Keyed, PositionItem.dict], ?_⟩
  simp [PositionItem.dict, Json.Plain.int, Json.Plain.str]

theorem TradeItem.plain (t : TradeItem) : (Json.obj (t.dict isoformatNaive)).Plain := by
  refine Json.plain_obj.mpr ⟨by simp [Keyed, TradeItem.dict], ?_⟩
  simp [TradeItem.dict, Json.Plain.int, Json.Plain.str]

theorem AuditItem.plain (a : AuditItem) : (Json.obj a.dict).Plain := by
  refine Json.plain_obj.mpr ⟨by simp [Keyed, AuditItem.dict], ?_⟩
  simp [AuditItem.dict, Json.Plain.int, Json.Plain.str, plain_jsonInt?, plain_jsonStr?]

/-- **The body is plain.** -/
theorem Report.plain {data : Dict} (h : Report isoformat isoformatNaive cfg data) :
    (Json.obj data).Plain := by
  cases h with
  | overview db alerts createdAt now => exact Overview.plain _
  | exposure db tie now =>
    refine Json.plain_obj.mpr ⟨by simp [Keyed, exposureDict], ?_⟩
    have hrows : (Json.arr ((db.exposureBreakdown tie).map fun r => .obj (r.dict cfg))).Plain :=
      plain_dicts SymbolExposure.plain _
    simpa [exposureDict, Json.Plain.str] using hrows
  | snapshot snapshotAt b b' b'' tie tie' =>
    refine Json.plain_obj.mpr ⟨by simp [Keyed, Snapshot.dict], ?_⟩
    have hpositions := plain_dicts PositionItem.plain (b.livePositions cfg tie)
    have htrades : (Json.arr ((b'.recentTrades cfg tie').map fun t =>
        .obj (t.dict isoformatNaive))).Plain :=
      plain_dicts TradeItem.plain _
    have haudit := plain_dicts AuditItem.plain b''.auditTail
    simpa [Snapshot.dict, Json.Plain.str] using ⟨hpositions, htrades, haudit⟩

theorem Report.unsigned {data : Dict} (h : Report isoformat isoformatNaive cfg data) :
    "signature" ∉ data.map Prod.fst := by
  cases h <;> simp [Overview.dict, exposureDict, Snapshot.dict]

end

/-- **Reports verify.** Whatever the state of the tables and the order of the keys, the recipient
has the bytes that were signed, with their signature. Plain values with the same signed bytes are
equal up to the order of the keys. -/
theorem reports_verify (isoformat isoformatNaive : ℕ → String) (cfg : Config)
    (hmac : ByteArray → String) :
    (∀ data, Report isoformat isoformatNaive cfg data → (Json.obj data).Plain ∧
      ∀ d, (Json.obj (signed hmac data)).Reordered (.obj d) →
        recipient (responseBody d) = some (.str (hmac (signedBytes data)), signedBytes data)) ∧
    ∀ a b : Dict, (Json.obj a).Plain → (Json.obj b).Plain →
      (signedBytes a = signedBytes b ↔ (Json.obj a).Reordered (.obj b)) :=
  ⟨fun _ h => ⟨h.plain, fun _ hd => recipient_signed hmac h.plain h.unsigned hd⟩,
    fun _ _ ha _ => signedBytes_eq_iff ha.distinct⟩

namespace Sample

/-- What `/regulator/exposure` signs for three live positions. -/
def exposureReport : Dict :=
  exposureDict toString config (exposedDb.exposureBreakdown fun _ => 0) 7

/-- A digest: the number of bytes. -/
def bytesSigned (bytes : ByteArray) : String := toString bytes.size

end Sample

open Sample in
/-- The result for a body that begins with the signature, and for two orders of the keys. -/
theorem reports_verify_exposure :
    recipient (responseBody (signed bytesSigned exposureReport).reverse) =
        some (.str (bytesSigned (signedBytes exposureReport)), signedBytes exposureReport) ∧
      signedBytes exposureReport = signedBytes exposureReport.reverse := by
  obtain ⟨hreports, hbytes⟩ := reports_verify toString toString config bytesSigned
  obtain ⟨hplain, hrecipient⟩ := hreports exposureReport (.exposure exposedDb (fun _ => 0) 7)
  have hswapped : (Json.obj exposureReport).Reordered (.obj exposureReport.reverse) :=
    .perm (List.reverse_perm _).symm
  exact ⟨hrecipient _ (.perm (List.reverse_perm _).symm),
    (hbytes _ _ hplain (hswapped.plain hplain)).mpr hswapped⟩

end CryptoExchange
