import CryptoExchange.Lib.Retry
import CryptoExchange.Realtime.Klines
import CryptoExchange.Sessions.Release
import CryptoExchange.Sessions.Trail

/-!
# The user data stream, message by message

`UserDataStreamService` (`app/services/user_data_stream.py`) next to the handlers of the ledger. A
message is JSON of any form: it is read field by field, any field can raise, and the positions that
were reported before that have been ended by then. `_apply_liquidation` runs in sessions of its own,
between the others, and the clients are told after it.

* `UserData.attempt`: the machine of `_connect_and_process`; `UserData.streamLoop`: that of
  `_stream_loop`.
* `UserData.eventOf`, `UserData.noticeOf`: the event of a message that is read to its end, and what
  the clients are told of it.
* `UserData.Turn.Follows`: the handlers read what `eventOf` and `noticeOf` read, in their order.
* `told_settled`: what the account clients are told has happened.
-/

namespace CryptoExchange

open Lib Db KlineStream

/-- `_RECONNECT_BASE_DELAY`, in seconds, the same in all services. -/
def reconnectBaseDelay : ℕ := 5

/-- `_MAX_RECONNECT_DELAY`. -/
def maxReconnectDelay : ℕ := 300

theorem reconnectBaseDelay_le : reconnectBaseDelay ≤ maxReconnectDelay := by decide

namespace UserData

/-! ## Reading a message -/

/-- `Decimal(s)`: `none` if it raises or cannot be compared, `some none` if it is not finite. -/
abbrev ToDecimal := String → Option (Option ℚ)

/-- `j.startswith(start)`; `none` if it raises. -/
def startsWith (j : Json) (start : String) : Option Bool :=
  match j with
  | .str s => some (start.toList.isPrefixOf s.toList)
  | _ => none

/-- `for x in j`; `none` if it raises, as `len(j)` does. -/
def elements : Json → Option (List Json)
  | .arr xs => some xs
  | .str s => some (s.toList.map fun c => .str (String.singleton c))
  | .obj kvs => some (kvs.map fun kv => .str kv.1)
  | _ => none

/-- A text, or no text. -/
def textOr : Json → String
  | .str s => s
  | _ => ""

section

variable (cfg : Config) (decimal : ToDecimal)

/-- `Decimal(str(j))`: the text of a value that is no text and no number is no numeral. -/
def toDecimal : Json → Option (Option ℚ)
  | .str s => decimal s
  | .int n => decimal (toString n)
  | .float x => decimal (String.ofList x.repr.chars)
  | _ => none

/-- The local variables that a handler goes on with after `_apply_liquidation`. -/
inductive Handling where
  | orderUpdate (data : Json)
  | accountUpdate (data : Json) (rest : List Json)

/-- What a handler does next. -/
inductive Turn where
  | returns
  | applies (symbol : Json) (h : Handling)
  | broadcasts (payload : Json)

/-- `avg_price`. -/
def avgPriceOf (order : Json) : Option Json := do
  let ap ← getOr order "ap" (.str "0")
  if truthy ap then return ap else getOr order "L" (.str "0")

/-- The payload of `_on_order_update`. -/
def orderNotice (data : Json) : Option Json := do
  let order ← getOr data "o" (.obj [])
  let clientId ← getOr order "c" (.str "")
  let symbol ← getOr order "s" (.str "")
  let avgPrice ← avgPriceOf order
  let side ← getOr order "S" (.str "")
  let lowered ← match side with
    | .str s => some (Json.str (cfg.lower s))
    | _ => none
  let quantity ← getOr order "q" (.str "0")
  let timestamp ← getOr data "E" .null
  return .obj [("type", .str "liquidation"), ("symbol", symbol), ("side", lowered),
    ("quantity", quantity), ("price", avgPrice), ("client_order_id", clientId),
    ("timestamp", timestamp)]

/-- `is_liquidation`; `none` if it raises. -/
def isLiquidation (clientId orderType executionType : Json) : Option Bool :=
  if isText orderType "LIQUIDATION" || isText executionType "CALCULATED" then some true
  else (startsWith clientId "autoclose-").map fun b => b || isText clientId "adl_autoclose"

/-- `_on_order_update` up to `_apply_liquidation`. -/
def onOrderUpdate (data : Json) : Option Turn := do
  let order ← getOr data "o" (.obj [])
  let clientId ← getOr order "c" (.str "")
  let orderType ← getOr order "o" (.str "")
  let executionType ← getOr order "x" (.str "")
  let liquidation ← isLiquidation clientId orderType executionType
  if !liquidation then return .returns
  else
    let symbol ← getOr order "s" (.str "")
    let _ ← avgPriceOf order
    return .applies symbol (.orderUpdate data)

/-- The payload of `_on_account_update`. -/
def accountNotice (data : Json) : Option Json := do
  let update ← getOr data "a" (.obj [])
  let reason ← getOr update "m" (.str "")
  let positions ← getOr update "P" (.arr [])
  let balances ← getOr update "B" (.arr [])
  let timestamp ← getOr data "E" .null
  return .obj [("type", .str "account_update"), ("reason", reason), ("balances", balances),
    ("positions", positions), ("timestamp", timestamp)]

/-- `for pos in positions` of `_on_account_update`, and what follows it. -/
def accountLoop (data : Json) : List Json → Option Turn
  | [] => (accountNotice data).map .broadcasts
  | pos :: rest => do
    let pa ← getOr pos "pa" (.str "1")
    let amount ← toDecimal decimal pa
    if amount = some 0 then
      let symbol ← getOr pos "s" (.str "")
      return .applies symbol (.accountUpdate data rest)
    else accountLoop data rest

def onAccountUpdate (data : Json) : Option Turn := do
  let update ← getOr data "a" (.obj [])
  let _ ← getOr update "m" (.str "")
  let positions ← getOr update "P" (.arr [])
  let entries ← elements positions
  accountLoop decimal data entries

/-- The payload of `_on_margin_call`. -/
def marginCallNotice (data : Json) : Option Json := do
  let positions ← getOr data "p" (.arr [])
  let _ ← elements positions
  let timestamp ← getOr data "E" .null
  return .obj [("type", .str "margin_call"), ("positions", positions), ("timestamp", timestamp)]

def onMarginCall (data : Json) : Option Turn := (marginCallNotice data).map .broadcasts

/-- `_dispatch`; `none` if it raises. -/
def dispatch (data : Json) : Option Turn := do
  let eventType ← getOr data "e" .null
  if isText eventType "ORDER_TRADE_UPDATE" then onOrderUpdate data
  else if isText eventType "ACCOUNT_UPDATE" then onAccountUpdate decimal data
  else if isText eventType "MARGIN_CALL" then onMarginCall data
  else return .returns

/-- A handler after `_apply_liquidation`. -/
def Handling.resume : Handling → Option Turn
  | .orderUpdate data => (orderNotice cfg data).map .broadcasts
  | .accountUpdate data rest => accountLoop decimal data rest

/-- The symbol that `_apply_liquidation` selects: a value that counts as false as an empty text,
`none` if the database raises because it is no text. -/
def applied (symbol : Json) : Option String :=
  match symbol with
  | .str s => some s
  | j => if truthy j then none else some ""

end

/-! ## The service -/

/-- What the service shares with the handlers, and what has come of its messages. -/
structure Shared where
  ledger : World
  running : Bool := false
  listenKey : Option String := none
  /-- The messages so far (`none` where `json.loads` raises), each with the tables as they were. -/
  received : List (Option Json × Db) := []
  /-- The calls of `broadcast_account`: the place of the message, and the payload. -/
  told : List (ℕ × Json) := []
  /-- The messages for which an exception was logged. -/
  raised : List ℕ := []

namespace Shared

variable (w : Shared)

/-- The place of the message that is handled. -/
def current : ℕ := w.received.length - 1

def receive (message : Option Json) : Shared :=
  { w with received := w.received ++ [(message, w.ledger.db)] }

def tell (payload : Json) : Shared := { w with told := w.told ++ [(w.current, payload)] }

def logException : Shared := { w with raised := w.raised ++ [w.current] }

end Shared

/-- What comes next on the connection; it is closed properly, or breaks. -/
inductive Frame where
  | message (m : Option Json)
  | closed (properly : Bool)

structure StreamAnswer where
  /-- The call raises. -/
  fails : Bool := false
  ledger : Answer := {}
  frame : Frame := .message none
  listenKey : String := ""

/-- The awaits of `_connect_and_process`. -/
inductive Phase where
  | connect
  | receive
  | apply (p : ApplyLiquidation.Phase) (h : Handling)
  | broadcast

section

variable (cfg : Config) (c : Column) (decimal : ToDecimal)

/-- The body of the loop over the messages, from one await to the next. -/
def takeTurn (w : Shared) : Option Turn → Shared × Next Phase Bool
  | none => (w.logException, .await .receive)
  | some .returns => (w, .await .receive)
  | some (.applies symbol h) =>
    match applied symbol with
    | some s => (w, .await (.apply (.selectPositions s) h))
    | none => (w.logException, .await .receive)
  | some (.broadcasts payload) => (w.tell payload, .await .broadcast)

/-- `_connect_and_process`; it ends with whether it returned. -/
def attempt (w : Shared) (ans : StreamAnswer) : Phase → Shared × Next Phase Bool
  | .connect => if ans.fails then (w, .done false) else (w, .await .receive)
  | .receive =>
    match ans.frame with
    | .message m => takeTurn (w.receive m) (m.bind (dispatch decimal))
    | .closed properly => (w, .done properly)
  | .apply p h =>
    match ApplyLiquidation.step cfg c w.ledger ans.ledger p with
    | (ledger, .await p') => ({ w with ledger }, .await (.apply p' h))
    | (ledger, .done (.ok ())) => takeTurn { w with ledger } (h.resume cfg decimal)
    | (ledger, .done (.error _)) => takeTurn { w with ledger } none
  | .broadcast => (if ans.fails then w.logException else w, .await .receive)

/-- `_stream_loop`. -/
def streamLoop : Retry Shared StreamAnswer Phase where
  base := reconnectBaseDelay
  cap := maxReconnectDelay
  base_le := reconnectBaseDelay_le
  running := Shared.running
  start := .connect
  attempt := attempt cfg c decimal
  settle := id
  refresh := some fun w ans => if ans.fails then w else { w with listenKey := some ans.listenKey }

/-- The tasks: a handler of the ledger, `start`, and `stop`. -/
inductive Call (cfg : Config) where
  | handler (t : Task cfg)
  | start
  | newListenKey
  | loop (p : RetryPhase Phase)
  | stop

inductive CallEnd where
  | handled (r : Except Failure Reply)
  | ended

def callStep (w : Shared) (ans : StreamAnswer) : Call cfg → Shared × Next (Call cfg) CallEnd
  | .handler t =>
    let next := Task.step cfg c w.ledger ans.ledger t
    ({ w with ledger := next.1 }, next.2.map .handler .handled)
  | .start =>
    if cfg.hasCredentials then ({ w with running := true }, .await .newListenKey)
    else (w, .done .ended)
  | .newListenKey =>
    if ans.fails then (w, .done .ended)
    else
      let loop := streamLoop cfg c decimal
      let next := loop.again { w with listenKey := some ans.listenKey } loop.base
      (next.1, next.2.map .loop fun _ => .ended)
  | .loop p =>
    let next := (streamLoop cfg c decimal).step w ans p
    (next.1, next.2.map .loop fun _ => .ended)
  | .stop => ({ w with running := false }, .done .ended)

/-- The service is started once; beside it there are requests, and calls of `stop`. -/
def userData (init : World → Prop) (requests : List Request) (stops : ℕ) : Sys :=
  interleave (callStep cfg c decimal) fun w ts =>
    w.ledger.db.Valid c ∧ init w.ledger ∧ w = { ledger := w.ledger } ∧
    ts = .await .start :: requests.map (fun r => .await (.handler (r.start cfg))) ++
      List.replicate stops (.await .stop)

end

/-! ## Messages that are read to their end -/

/-- `d.get(k, default)`, where it does not raise. -/
def field (d : Json) (k : String) (default : Json) : Json := (getOr d k default).getD default

theorem field_eq {d v default : Json} {k : String} (h : getOr d k default = some v) :
    field d k default = v := by
  rw [field, h]
  rfl

theorem isText_eq {j : Json} {s : String} (hs : s ≠ "") : isText j s = decide (textOr j = s) := by
  cases j with
  | str t => rfl
  | _ => simp [isText, textOr, hs.symm]

section

variable (cfg : Config) (decimal : ToDecimal)

def positionOf (pos : Json) : PositionUpdate where
  symbol := textOr (field pos "s" (.str ""))
  amount := (toDecimal decimal (field pos "pa" (.str "1"))).join

/-- The event of a message. -/
def eventOf (data : Json) : StreamEvent :=
  let eventType := field data "e" .null
  let order := field data "o" (.obj [])
  if isText eventType "ORDER_TRADE_UPDATE" then
    .orderTradeUpdate
      { clientId := textOr (field order "c" (.str ""))
        orderType := textOr (field order "o" (.str ""))
        executionType := textOr (field order "x" (.str ""))
        symbol := textOr (field order "s" (.str "")) }
  else if isText eventType "ACCOUNT_UPDATE" then
    let entries := elements (field (field data "a" (.obj [])) "P" (.arr []))
    .accountUpdate ((entries.getD []).map (positionOf decimal))
  else if isText eventType "MARGIN_CALL" then .marginCall
  else .other

/-- What the clients are told of a message; `none` if nothing. -/
def noticeOf (data : Json) : Option Json :=
  let eventType := field data "e" .null
  if isText eventType "ORDER_TRADE_UPDATE" then orderNotice cfg data
  else if isText eventType "ACCOUNT_UPDATE" then accountNotice data
  else if isText eventType "MARGIN_CALL" then marginCallNotice data
  else none

/-- The symbols that entries of `P` report as closed. -/
def endsIn (entries : List Json) : List String :=
  ((entries.map (positionOf decimal)).filter fun p => p.amount.getD 1 = 0).map PositionUpdate.symbol

/-- The handler goes on with the message. -/
def Handling.Of (data : Json) : Handling → Prop
  | .orderUpdate d => d = data ∧ isText (field data "e" .null) "ORDER_TRADE_UPDATE" = true
  | .accountUpdate d _ => d = data ∧ isText (field data "e" .null) "ACCOUNT_UPDATE" = true

/-- The symbols that are still to be ended then. -/
def Handling.ends : Handling → List String
  | .orderUpdate _ => []
  | .accountUpdate _ rest => endsIn decimal rest

/-- The handler ends what is to be ended, in order, and tells the clients of it in the end. -/
def Turn.Follows (data : Json) (todo : List String) : Turn → Prop
  | .returns => False
  | .applies symbol h => h.Of data ∧ todo = textOr symbol :: h.ends decimal
  | .broadcasts payload => noticeOf cfg data = some payload ∧ todo = []

variable {cfg decimal} {data : Json}

theorem isLiquidation_eq {clientId orderType executionType : Json} {b : Bool} (symbol : String)
    (h : isLiquidation clientId orderType executionType = some b) :
    (OrderUpdate.mk (textOr clientId) (textOr orderType) (textOr executionType)
      symbol).isLiquidation = b := by
  rw [isLiquidation, isText_eq (by decide), isText_eq (by decide)] at h
  split at h
  · rename_i hd
    cases h
    simp only [Bool.or_eq_true, decide_eq_true_eq] at hd
    simp only [OrderUpdate.isLiquidation, decide_eq_true_eq]
    rcases hd with hd | hd
    · exact .inl hd
    · exact .inr (.inl hd)
  · rename_i hd
    simp only [Bool.or_eq_true, decide_eq_true_eq, not_or] at hd
    obtain ⟨start, hstart, rfl⟩ := Option.map_eq_some_iff.mp h
    cases clientId with
    | str s =>
      cases hstart
      have hclient : textOr (.str s) = s := rfl
      simp [-List.isPrefixOf_iff_prefix, OrderUpdate.isLiquidation, hd.1, hd.2, hclient, isText]
    | _ => cases hstart

theorem accountLoop_follows {t : Turn} {entries : List Json}
    (htype : isText (field data "e" .null) "ACCOUNT_UPDATE" = true)
    (h : accountLoop decimal data entries = some t) :
    t.Follows cfg decimal data (endsIn decimal entries) := by
  induction entries with
  | nil =>
    obtain ⟨payload, hp, rfl⟩ := Option.map_eq_some_iff.mp h
    have hother : isText (field data "e" .null) "ORDER_TRADE_UPDATE" = false := by
      rw [isText_iff.mp htype]
      rfl
    refine ⟨?_, rfl⟩
    rw [noticeOf, hother, htype]
    exact hp
  | cons pos rest ih =>
    simp only [accountLoop, Option.bind_eq_bind, Option.bind_eq_some_iff] at h
    obtain ⟨pa, hpa, amount, hamount, h⟩ := h
    have hpos : (positionOf decimal pos).amount = amount := by
      rw [positionOf, field_eq hpa, hamount]
      rfl
    split at h
    · rename_i hzero
      obtain ⟨symbol, hsymbol, ht⟩ := Option.bind_eq_some_iff.mp h
      cases ht
      refine ⟨⟨rfl, htype⟩, ?_⟩
      have hend : (positionOf decimal pos).symbol = textOr symbol := by
        rw [positionOf, field_eq hsymbol]
      simp [endsIn, Handling.ends, hpos, hzero, hend]
    · rename_i hne
      have hskip : endsIn decimal (pos :: rest) = endsIn decimal rest := by
        have : ¬amount.getD 1 = 0 := by
          cases amount with
          | none => simp
          | some q => simpa using hne
        simp [endsIn, hpos, this]
      rw [hskip]
      exact ih h

theorem onOrderUpdate_follows {t : Turn}
    (htype : isText (field data "e" .null) "ORDER_TRADE_UPDATE" = true)
    (h : onOrderUpdate data = some t) :
    t = .returns ∨ t.Follows cfg decimal data (eventOf decimal data).liquidates := by
  simp only [onOrderUpdate, Option.bind_eq_bind, Option.bind_eq_some_iff] at h
  obtain ⟨order, ho, clientId, hc, orderType, hot, executionType, hx, b, hb, h⟩ := h
  split at h
  · cases h
    exact .inl rfl
  · rename_i hnot
    simp only [Option.bind_eq_some_iff] at h
    obtain ⟨symbol, hs, avgPrice, -, h⟩ := h
    cases h
    refine .inr ⟨⟨rfl, htype⟩, ?_⟩
    have hl := isLiquidation_eq (textOr symbol) hb
    simp only [Bool.not_eq_true, Bool.not_eq_false'] at hnot
    rw [eventOf, htype, field_eq ho, field_eq hc, field_eq hot, field_eq hx, field_eq hs]
    simp [StreamEvent.liquidates, hl, hnot, Handling.ends]

/-- **Dispatch.** A handler that is not done at once follows the event of the message. -/
theorem dispatch_follows {t : Turn} (h : dispatch decimal data = some t) :
    t = .returns ∨ t.Follows cfg decimal data (eventOf decimal data).liquidates := by
  obtain ⟨eventType, he, h⟩ := Option.bind_eq_some_iff.mp h
  have htype := field_eq he
  split at h
  · rename_i ho
    exact onOrderUpdate_follows (htype ▸ ho) h
  split at h
  · rename_i ho ha
    simp only [onAccountUpdate, Option.bind_eq_bind, Option.bind_eq_some_iff] at h
    obtain ⟨update, hu, reason, -, positions, hp, entries, hentries, h⟩ := h
    have hf : t.Follows cfg decimal data (endsIn decimal entries) :=
      accountLoop_follows (htype ▸ ha) h
    refine .inr ?_
    have hevent : (eventOf decimal data).liquidates = endsIn decimal entries := by
      rw [eventOf, htype, if_neg ho, if_pos ha, field_eq hu, field_eq hp, hentries]
      rfl
    rw [hevent]
    exact hf
  split at h
  · rename_i ho ha hm
    obtain ⟨payload, hp, rfl⟩ := Option.map_eq_some_iff.mp h
    refine .inr ⟨?_, ?_⟩
    · rw [noticeOf, htype, if_neg ho, if_neg ha, if_pos hm]
      exact hp
    · rw [eventOf, htype, if_neg ho, if_neg ha, if_pos hm]
      rfl
  · cases h
    exact .inl rfl

/-- **Resumption.** After `_apply_liquidation`, too. -/
theorem resume_follows {t : Turn} {h : Handling} (hof : h.Of data)
    (ht : h.resume cfg decimal = some t) : t.Follows cfg decimal data (h.ends decimal) := by
  cases h with
  | orderUpdate d =>
    obtain ⟨rfl, htype⟩ := hof
    obtain ⟨payload, hp, rfl⟩ := Option.map_eq_some_iff.mp ht
    refine ⟨?_, rfl⟩
    rw [noticeOf, htype]
    exact hp
  | accountUpdate d rest =>
    obtain ⟨rfl, htype⟩ := hof
    exact accountLoop_follows htype ht

/-- What `_apply_liquidation` selects is the symbol as a text. -/
theorem applied_eq {symbol : Json} {s : String} (h : applied symbol = some s) :
    textOr symbol = s := by
  cases symbol with
  | str t =>
    cases h
    rfl
  | _ =>
    simp only [applied] at h
    split at h
    · cases h
    · cases h
      rfl

end

/-! ## A call of `_apply_liquidation` -/

section

variable {cfg : Config} {c : Column} {db now now' : Db} {symbol : String} {symbols : List String}

/-- The positions of `db` in the symbols have ended. -/
def Settled (db now : Db) (symbols : List String) : Prop :=
  ∀ symbol ∈ symbols, symbol ≠ "" → ∀ p ∈ db.positions, p.symbol = symbol →
    ∃ q ∈ now.positions, p.Later q ∧ q.liquidated = true

theorem Settled.later (h : Settled db now symbols) (hl : now.Later now') :
    Settled db now' symbols := by
  intro symbol hs hne p hp e
  obtain ⟨q, hq, hpq, hend⟩ := h symbol hs hne p hp e
  obtain ⟨q', hq', hqq⟩ := hl.positions.mem hq
  exact ⟨q', hq', hpq.trans hqq, hqq.liquidated hend⟩

theorem Settled.concat (h : Settled db now symbols) (hs : Settled db now [symbol]) :
    Settled db now (symbols ++ [symbol]) := by
  intro x hx
  rcases List.mem_append.mp hx with hx | hx
  · exact h x hx
  · exact hs x hx

/-- The loop has every position of `db` in its symbol that has not ended. -/
structure Collected (db now : Db) (s : ApplyLiquidation.Loop) (symbol : String) : Prop where
  traced : s.Traced now
  all : ∀ p ∈ db.positions, p.symbol = symbol →
    (∃ q ∈ now.positions, p.Later q ∧ q.liquidated = true) ∨ ∃ q ∈ s.positions, p.Later q

/-- How far the call for the symbol has come. -/
def Applying (db now : Db) (symbol : String) : ApplyLiquidation.Phase → Prop
  | .selectPositions s => s = symbol
  | .selectAccount s _ _ | .commit s => Collected db now s symbol

theorem Collected.later {s : ApplyLiquidation.Loop} (h : Collected db now s symbol)
    (hl : now.Later now') : Collected db now' s symbol where
  traced := h.traced.later hl
  all p hp e := by
    rcases h.all p hp e with ⟨q, hq, hpq, hend⟩ | hq
    · obtain ⟨q', hq', hqq⟩ := hl.positions.mem hq
      exact .inl ⟨q', hq', hpq.trans hqq, hqq.liquidated hend⟩
    · exact .inr hq

theorem Applying.later {p : ApplyLiquidation.Phase} (h : Applying db now symbol p)
    (hl : now.Later now') : Applying db now' symbol p := by
  cases p with
  | selectPositions s => exact h
  | selectAccount s q todo | commit s => exact Collected.later h hl

variable {w w' : World} {a : Answer} {p : ApplyLiquidation.Phase}

/-- The `SELECT` finds the positions that are live. -/
theorem collected_select {ps : List Position} (hl : db.Later w.db)
    (hps : w.db.livePositionsIn symbol = ps) (accounts : List ApplyLiquidation.Loaded) :
    Collected db w.db ⟨symbol, ps, accounts⟩ symbol := by
  subst hps
  refine ⟨⟨fun q hq => ?_, fun q hq => ?_⟩, fun p hp e => ?_⟩
  · obtain ⟨-, hsymbol, hlive⟩ := mem_livePositionsIn.mp hq
    exact ⟨hlive, hsymbol⟩
  · exact ⟨q, (mem_livePositionsIn.mp hq).1, .refl q⟩
  · obtain ⟨q, hq, hpq⟩ := hl.positions.mem hp
    cases hend : q.liquidated with
    | true => exact .inl ⟨q, hq, hpq, hend⟩
    | false => exact .inr ⟨q, mem_livePositionsIn.mpr ⟨hq, hpq.symbol.trans e, hend⟩, hpq⟩

theorem Collected.turn {s : ApplyLiquidation.Loop} (h : Collected db now s symbol) (q : Position)
    (todo : List Position) (accounts : List ApplyLiquidation.Loaded) :
    Applying db now symbol (s.turn q todo accounts) := by
  unfold ApplyLiquidation.Loop.turn
  cases todo with
  | nil => exact ⟨⟨h.traced.live, h.traced.rows⟩, h.all⟩
  | cons q' todo => exact ⟨⟨h.traced.live, h.traced.rows⟩, h.all⟩

theorem applying_next {q : ApplyLiquidation.Phase} (hl : db.Later w.db)
    (h : Applying db w.db symbol p) (hs : ApplyLiquidation.step cfg c w a p = (w', .await q)) :
    Applying db w'.db symbol q := by
  cases ApplyLiquidation.step_cases hs with
  | found select_eq =>
    obtain rfl : _ = symbol := h
    exact collected_select hl select_eq []
  | known | missing | loaded => exact Collected.turn h _ _ _

/-- When a call has returned, what was in its symbol has ended. -/
theorem applying_done (hl : db.Later w.db) (h : Applying db w.db symbol p)
    (hs : ApplyLiquidation.step cfg c w a p = (w', .done (.ok ()))) :
    Settled db w'.db [symbol] := by
  intro x hx hne q hq e
  obtain rfl := List.mem_singleton.mp hx
  cases p with
  | selectPositions s =>
    obtain rfl : s = x := h
    simp only [ApplyLiquidation.step, if_neg hne] at hs
    split at hs
    · cases hs
    split at hs
    · rename_i hnil
      cases hs
      rcases (collected_select hl hnil []).all q hq e with hend | ⟨q', hq', -⟩
      · exact hend
      · cases hq'
    · cases hs
  | selectAccount s q' todo =>
    simp only [ApplyLiquidation.step] at hs
    split at hs
    · cases hs
    split at hs
    · cases hs
    split at hs <;> cases hs
  | commit s =>
    obtain ⟨traced, all⟩ := h
    simp only [ApplyLiquidation.step] at hs
    split at hs
    · cases hs
    split at hs
    · cases hs
    · rename_i w₁ hc
      have hf := World.commit_db hc
      have hforward : ∀ x ∈ s.writes, x.Forward := fun x hx =>
        .inl (ApplyLiquidation.moves_writes s x hx)
      have hdb : w'.db = w₁.db := by
        cases hs
        rw [ApplyLiquidation.foldl_emit]
      rw [hdb]
      rcases all q hq e with ⟨q₁, hq₁, hqq, hend⟩ | ⟨q₁, hq₁, hqq⟩
      · obtain ⟨q₂, hq₂, hq₁₂⟩ := (Db.Later.flush hforward hf).positions.mem hq₁
        exact ⟨q₂, hq₂, hqq.trans hq₁₂, hq₁₂.liquidated hend⟩
      · obtain ⟨q₂, hq₂, hq₁₂, hend⟩ := traced.commit_ends hf hq₁
        exact ⟨q₂, hq₂, hqq.trans hq₁₂, hend⟩

end

/-! ## Messages, one after another -/

section

variable (cfg : Config) (decimal : ToDecimal)

/-- What has become of a message. -/
def Accounted (w : Shared) (i : ℕ) : Prop :=
  i ∈ w.told.map Prod.fst ∨ i ∈ w.raised ∨
    ∃ data db, w.received[i]? = some (some data, db) ∧ dispatch decimal data = some .returns

/-- No message is being handled. -/
structure Idle (w : Shared) : Prop where
  accounted : ∀ i < w.received.length, Accounted decimal w i
  told : ∀ x ∈ w.told, x.1 < w.received.length

/-- The last message is being handled, and the positions in the symbols `ended` have ended. -/
structure Current (w : Shared) (data : Json) (db : Db) (ended : List String) : Prop where
  received : w.received[w.current]? = some (some data, db)
  accounted : ∀ i < w.current, Accounted decimal w i
  told : ∀ x ∈ w.told, x.1 < w.current
  later : db.Later w.ledger.db
  settled : Settled db w.ledger.db ended

/-- The call of `_apply_liquidation` is one of those for the last message. -/
def Handles (w : Shared) (p : ApplyLiquidation.Phase) (h : Handling) : Prop :=
  ∃ data db ended symbol, Current decimal w data db ended ∧ h.Of data ∧
    (eventOf decimal data).liquidates = ended ++ symbol :: h.ends decimal ∧
    Applying db w.ledger.db symbol p

def Phase.Holds (w : Shared) : Phase → Prop
  | .apply p h => Handles decimal w p h
  | _ => Idle decimal w

/-- What the clients were told of a message. -/
def Told (w : Shared) (x : ℕ × Json) : Prop :=
  ∃ data db, w.received[x.1]? = some (some data, db) ∧ noticeOf cfg data = some x.2 ∧
    Settled db w.ledger.db (eventOf decimal data).liquidates

structure Honest (w : Shared) : Prop where
  told : ∀ x ∈ w.told, Told cfg decimal w x
  ordered : (w.told.map Prod.fst).Pairwise (· < ·)
  accounted : ∀ i, i + 1 < w.received.length → Accounted decimal w i

/-- Only the handlers of the ledger have gone on. -/
structure Shared.Aside (w w' : Shared) : Prop where
  received : w'.received = w.received
  told : w'.told = w.told
  raised : w'.raised = w.raised
  later : w.ledger.db.Later w'.ledger.db

variable {cfg decimal} {w w' : Shared}

theorem Accounted.aside {i : ℕ} (h : Accounted decimal w i) (ha : w.Aside w') :
    Accounted decimal w' i := by
  rw [Accounted, ha.told, ha.raised, ha.received]
  exact h

theorem Idle.aside (h : Idle decimal w) (ha : w.Aside w') : Idle decimal w' where
  accounted i hi := (h.accounted i (ha.received ▸ hi)).aside ha
  told x hx := by
    rw [ha.received]
    exact h.told x (ha.told ▸ hx)

theorem Current.aside {data : Json} {db : Db} {ended : List String}
    (h : Current decimal w data db ended) (ha : w.Aside w') : Current decimal w' data db ended where
  received := by
    rw [Shared.current, ha.received]
    exact h.received
  accounted i hi := (h.accounted i (by rwa [Shared.current, ha.received] at hi)).aside ha
  told x hx := by
    rw [Shared.current, ha.received]
    exact h.told x (ha.told ▸ hx)
  later := h.later.trans ha.later
  settled := h.settled.later ha.later

theorem Handles.aside {p : ApplyLiquidation.Phase} {h : Handling} (hh : Handles decimal w p h)
    (ha : w.Aside w') : Handles decimal w' p h := by
  obtain ⟨data, db, ended, symbol, hcurrent, hof, hends, happlying⟩ := hh
  exact ⟨data, db, ended, symbol, hcurrent.aside ha, hof, hends, happlying.later ha.later⟩

theorem Phase.Holds.aside {p : Phase} (h : p.Holds decimal w) (ha : w.Aside w') :
    p.Holds decimal w' := by
  cases p with
  | apply p h' => exact Handles.aside h ha
  | connect | receive | broadcast => exact Idle.aside h ha

theorem Honest.aside (h : Honest cfg decimal w) (ha : w.Aside w') : Honest cfg decimal w' where
  told x hx := by
    obtain ⟨data, db, hreceived, hnotice, hsettled⟩ := h.told x (ha.told ▸ hx)
    exact ⟨data, db, ha.received ▸ hreceived, hnotice, hsettled.later ha.later⟩
  ordered := ha.told ▸ h.ordered
  accounted i hi := (h.accounted i (ha.received ▸ hi)).aside ha

/-- The message is the last one, and there is nothing more to come of it. -/
theorem Current.idle {data : Json} {db : Db} {ended : List String}
    (h : Current decimal w data db ended) (hr : w'.received = w.received)
    (hold : ∀ i, Accounted decimal w i → Accounted decimal w' i)
    (hnew : Accounted decimal w' w.current) (ht : ∀ x ∈ w'.told, x ∈ w.told ∨ x.1 = w.current) :
    Idle decimal w' := by
  have hlen : w.current < w.received.length := (List.getElem?_eq_some_iff.mp h.received).1
  refine ⟨fun i hi => ?_, fun x hx => ?_⟩
  · rw [hr] at hi
    rcases Nat.lt_or_ge i w.current with hlt | hge
    · exact hold i (h.accounted i hlt)
    · obtain rfl : i = w.current := by
        rw [Shared.current] at hge ⊢
        omega
      exact hnew
  · rw [hr]
    rcases ht x hx with hx | hx
    · exact (h.told x hx).trans hlen
    · rw [hx]
      exact hlen

theorem accounted_logException (w : Shared) : Accounted decimal w.logException w.current :=
  .inr (.inl (List.mem_append_right _ List.mem_cons_self))

theorem Accounted.logException {i : ℕ} (h : Accounted decimal w i) :
    Accounted decimal w.logException i := by
  rcases h with h | h | h
  · exact .inl h
  · exact .inr (.inl (List.mem_append_left _ h))
  · exact .inr (.inr h)

theorem Idle.logException (h : Idle decimal w) : Idle decimal w.logException :=
  ⟨fun i hi => (h.accounted i hi).logException, h.told⟩

theorem Current.raise {data : Json} {db : Db} {ended : List String}
    (h : Current decimal w data db ended) : Idle decimal w.logException :=
  h.idle rfl (fun _ hi => hi.logException) (accounted_logException w) fun _ hx => .inl hx

theorem Honest.logException (h : Honest cfg decimal w) : Honest cfg decimal w.logException :=
  ⟨h.told, h.ordered, fun i hi => (h.accounted i hi).logException⟩

theorem Accounted.tell {i : ℕ} (h : Accounted decimal w i) (payload : Json) :
    Accounted decimal (w.tell payload) i := by
  rcases h with h | h | h
  · exact .inl (by simp [Shared.tell, List.mem_map.mp h])
  · exact .inr (.inl h)
  · exact .inr (.inr h)

/-- The clients are told of a message once all of its symbols are done with. -/
theorem Honest.tell {data payload : Json} {db : Db} (h : Honest cfg decimal w)
    (hc : Current decimal w data db (eventOf decimal data).liquidates)
    (hn : noticeOf cfg data = some payload) : Honest cfg decimal (w.tell payload) where
  told x hx := by
    rcases List.mem_append.mp hx with hx | hx
    · exact h.told x hx
    · obtain rfl := List.mem_singleton.mp hx
      exact ⟨data, db, hc.received, hn, hc.settled⟩
  ordered := by
    rw [Shared.tell, List.map_append, List.pairwise_append]
    refine ⟨h.ordered, List.pairwise_singleton _ _, fun x hx y hy => ?_⟩
    obtain ⟨z, hz, rfl⟩ := List.mem_map.mp hx
    obtain rfl := List.mem_singleton.mp hy
    exact hc.told z hz
  accounted i hi := (h.accounted i hi).tell payload

/-- **Turn.** What a handler does next keeps to the message. -/
theorem takeTurn_holds {data : Json} {db : Db} {ended todo : List String} {t : Option Turn}
    {n : Next Phase Bool} (hh : Honest cfg decimal w) (hc : Current decimal w data db ended)
    (hends : (eventOf decimal data).liquidates = ended ++ todo)
    (ht : ∀ t' ∈ t, t' = .returns ∧ dispatch decimal data = some .returns ∨
      t'.Follows cfg decimal data todo) (hs : takeTurn w t = (w', n)) :
    Honest cfg decimal w' ∧ w'.ledger = w.ledger ∧ ∃ q, n = .await q ∧ q.Holds decimal w' := by
  unfold takeTurn at hs
  split at hs
  · cases hs
    exact ⟨hh.logException, rfl, _, rfl, hc.raise⟩
  · cases hs
    rcases ht _ rfl with ⟨-, hd⟩ | hf
    · exact ⟨hh, rfl, _, rfl, hc.idle rfl (fun _ hi => hi)
        (.inr (.inr ⟨data, db, hc.received, hd⟩)) fun _ hx => .inl hx⟩
    · exact hf.elim
  · rename_i symbol h
    obtain ⟨hof, htodo⟩ := (ht _ rfl).resolve_left fun e => by cases e.1
    split at hs
    · rename_i s happlied
      cases hs
      refine ⟨hh, rfl, _, rfl, data, db, ended, s, hc, hof, ?_, rfl⟩
      rw [hends, htodo, applied_eq happlied]
    · cases hs
      exact ⟨hh.logException, rfl, _, rfl, hc.raise⟩
  · rename_i payload
    cases hs
    obtain ⟨hnotice, rfl⟩ := (ht _ rfl).resolve_left fun e => by cases e.1
    rw [List.append_nil] at hends
    refine ⟨hh.tell (hends ▸ hc) hnotice, rfl, _, rfl,
      hc.idle rfl (fun _ hi => hi.tell payload) ?_ fun x hx => ?_⟩
    · exact .inl (by simp [Shared.tell])
    · rcases List.mem_append.mp hx with hx | hx
      · exact .inl hx
      · exact .inr (by rw [List.mem_singleton.mp hx])

end

/-! ## Steps -/

section

variable {cfg : Config} {c : Column} {decimal : ToDecimal} {w w' : Shared} {ans : StreamAnswer}

/-- A message arrives. -/
theorem receive_holds {message : Option Json} {n : Next Phase Bool}
    (hh : Honest cfg decimal w) (hi : Idle decimal w)
    (hs : takeTurn (w.receive message) (message.bind (dispatch decimal)) = (w', n)) :
    Honest cfg decimal w' ∧ w'.ledger = w.ledger ∧ ∃ q, n = .await q ∧ q.Holds decimal w' := by
  have hcurrent : (w.receive message).current = w.received.length := by
    simp [Shared.current, Shared.receive]
  have hkept : ∀ {i : ℕ} {x : Option Json × Db}, w.received[i]? = some x →
      (w.receive message).received[i]? = some x := by
    intro i x hx
    rw [Shared.receive, List.getElem?_append_left (List.getElem?_eq_some_iff.mp hx).1, hx]
  have hold : ∀ i, Accounted decimal w i → Accounted decimal (w.receive message) i := by
    intro i h
    rcases h with h | h | ⟨data, db, hreceived, hd⟩
    · exact .inl h
    · exact .inr (.inl h)
    · exact .inr (.inr ⟨data, db, hkept hreceived, hd⟩)
  have hh' : Honest cfg decimal (w.receive message) := by
    refine ⟨fun x hx => ?_, hh.ordered, fun i hlt => hold i (hi.accounted i ?_)⟩
    · obtain ⟨data, db, hreceived, hnotice, hsettled⟩ := hh.told x hx
      exact ⟨data, db, hkept hreceived, hnotice, hsettled⟩
    · simpa [Shared.receive] using hlt
  cases message with
  | none =>
    cases hs
    refine ⟨hh'.logException, rfl, _, rfl, fun i hlt => ?_, fun x hx => ?_⟩
    · rcases Nat.lt_or_ge i w.received.length with hlt' | hge
      · exact (hold i (hi.accounted i hlt')).logException
      · obtain rfl : i = (w.receive none).current := by
          rw [hcurrent]
          simp only [Shared.logException, Shared.receive, List.length_append, List.length_singleton]
            at hlt
          omega
        exact accounted_logException _
    · refine (hi.told x hx).trans ?_
      simp [Shared.logException, Shared.receive]
  | some data =>
    have hc : Current decimal (w.receive (some data)) data w.ledger.db [] := by
      refine ⟨?_, fun i hlt => ?_, fun x hx => ?_, .refl _, fun _ hx => by cases hx⟩
      · rw [hcurrent]
        simp [Shared.receive]
      · exact hold i (hi.accounted i (hcurrent ▸ hlt))
      · rw [hcurrent]
        exact hi.told x hx
    refine takeTurn_holds (w := w.receive (some data)) hh' hc (List.nil_append _).symm
      (fun t ht => ?_) hs
    have hd : dispatch decimal data = some t := ht
    have hfollows : t = .returns ∨ t.Follows cfg decimal data (eventOf decimal data).liquidates :=
      dispatch_follows hd
    rcases hfollows with rfl | hf
    · exact .inl ⟨rfl, hd⟩
    · exact .inr hf

/-- A step of `_apply_liquidation` is one of the ledger's handlers. -/
theorem applyLiquidation_db {v v' : World} {a : Answer} {p : ApplyLiquidation.Phase}
    {n : After ApplyLiquidation.Phase Unit} (hv : v.db.Valid c)
    (hs : ApplyLiquidation.step cfg c v a p = (v', n)) : v'.db.Valid c ∧ v.db.Later v'.db := by
  have h : Task.step cfg c v a (.applyLiquidation p) =
      (v', n.map .applyLiquidation (Except.map fun _ => .liquidated)) := by
    rw [Task.step, hs]
    rfl
  exact ⟨Task.step_valid hv h, Task.step_later (t := .applyLiquidation p) hv trivial h⟩

/-- **Attempt.** A step of `_connect_and_process`. -/
theorem attempt_holds {p : Phase} {n : Next Phase Bool} (hv : w.ledger.db.Valid c)
    (hh : Honest cfg decimal w) (hp : p.Holds decimal w)
    (hs : attempt cfg c decimal w ans p = (w', n)) :
    w'.ledger.db.Valid c ∧ w.ledger.db.Later w'.ledger.db ∧ Honest cfg decimal w' ∧
      (∀ q, n = .await q → q.Holds decimal w') ∧ (∀ r, n = .done r → Idle decimal w') := by
  cases p with
  | connect =>
    simp only [attempt] at hs
    split at hs <;>
    · cases hs
      exact ⟨hv, .refl _, hh, fun q e => by cases e <;> exact hp,
        fun r e => by cases e <;> exact hp⟩
  | receive =>
    simp only [attempt] at hs
    split at hs
    · obtain ⟨hh', hledger, q, rfl, hq⟩ := receive_holds hh hp hs
      rw [hledger]
      exact ⟨hv, .refl _, hh', fun q e => by cases e; exact hq, fun r e => by cases e⟩
    · cases hs
      exact ⟨hv, .refl _, hh, fun q e => by (cases e), fun r e => by cases e; exact hp⟩
  | broadcast =>
    have hp : Idle decimal w := hp
    simp only [attempt] at hs
    split at hs
    · cases hs
      exact ⟨hv, .refl _, hh.logException, fun q e => by cases e; exact hp.logException,
        fun r e => by cases e⟩
    · cases hs
      exact ⟨hv, .refl _, hh, fun q e => by cases e; exact hp, fun r e => by cases e⟩
  | apply p h =>
    obtain ⟨data, db, ended, symbol, hc, hof, hends, happlying⟩ := hp
    rcases hstep : ApplyLiquidation.step cfg c w.ledger ans.ledger p with ⟨ledger, m⟩
    obtain ⟨hv', hl⟩ := applyLiquidation_db hv hstep
    have ha : w.Aside { w with ledger } := ⟨rfl, rfl, rfl, hl⟩
    have turn : ∀ (ended' : List String) {todo : List String} {t : Option Turn},
        Current decimal { w with ledger } data db ended' →
        (eventOf decimal data).liquidates = ended' ++ todo →
        (∀ t' ∈ t, t' = .returns ∧ dispatch decimal data = some .returns ∨
          t'.Follows cfg decimal data todo) → takeTurn { w with ledger } t = (w', n) →
        w'.ledger.db.Valid c ∧ w.ledger.db.Later w'.ledger.db ∧ Honest cfg decimal w' ∧
          (∀ q, n = .await q → q.Holds decimal w') ∧ (∀ r, n = .done r → Idle decimal w') := by
      intro ended' todo t hc' hends' ht hs'
      obtain ⟨hh', hledger, q, rfl, hq⟩ := takeTurn_holds (hh.aside ha) hc' hends' ht hs'
      rw [hledger]
      exact ⟨hv', hl, hh', fun q e => by cases e; exact hq, fun r e => by cases e⟩
    rw [attempt, hstep] at hs
    rcases m with p' | r
    · cases hs
      have happlying' := applying_next hc.later happlying hstep
      refine ⟨hv', hl, hh.aside ha, fun q e => ?_, fun r e => by cases e⟩
      cases e
      exact ⟨data, db, ended, symbol, hc.aside ha, hof, hends, happlying'⟩
    · rcases r with e | u
      · exact turn ended (hc.aside ha) hends (fun t' ht => by cases ht) hs
      · have hsettled := applying_done hc.later happlying hstep
        have hc' := hc.aside ha
        refine turn (ended ++ [symbol])
          { hc' with settled := hc'.settled.concat hsettled } ?_
          (fun t' ht => .inr (resume_follows hof ht)) hs
        rw [hends, List.append_assoc]
        rfl

/-- The task of the service. -/
def StreamHolds (decimal : ToDecimal) (w : Shared) : Next (Call cfg) CallEnd → Prop
  | .await (.loop (.attempt _ p)) => p.Holds decimal w
  | .await (.handler _) | .await .stop => False
  | _ => Idle decimal w

/-- Another task. -/
def OtherHolds (w : Shared) : Next (Call cfg) CallEnd → Prop
  | .await (.handler t) => t.Holds w.ledger.db
  | .await .start | .await .newListenKey | .await (.loop _) => False
  | _ => True

theorem StreamHolds.aside {n : Next (Call cfg) CallEnd} (h : StreamHolds decimal w n)
    (ha : w.Aside w') : StreamHolds decimal w' n := by
  rcases n with p | e
  · cases p with
    | loop p =>
      cases p with
      | attempt delay p => exact Phase.Holds.aside h ha
      | sleep | refresh => exact Idle.aside h ha
    | start | newListenKey => exact Idle.aside h ha
    | handler | stop => exact h.elim
  · exact Idle.aside h ha

theorem OtherHolds.later {n : Next (Call cfg) CallEnd} (h : OtherHolds w n)
    (hl : w.ledger.db.Later w'.ledger.db) : OtherHolds w' n := by
  rcases n with p | e
  · cases p with
    | handler t => exact Task.Holds.later h hl
    | _ => exact h
  · trivial

/-- The head of `_stream_loop`. -/
theorem again_holds {delay : ℕ} {n : Next (RetryPhase Phase) Unit} (hi : Idle decimal w)
    (h : (streamLoop cfg c decimal).again w delay = (w', n)) :
    w' = w ∧ StreamHolds decimal w (n.map .loop fun _ => .ended : Next (Call cfg) CallEnd) := by
  rcases Retry.again_cases (r := streamLoop cfg c decimal) w delay with e | ⟨e, -⟩ <;>
  · rw [e] at h
    cases h
    exact ⟨rfl, hi⟩

/-- A step of the service. -/
theorem stream_step {p : Call cfg} {n : Next (Call cfg) CallEnd} (hv : w.ledger.db.Valid c)
    (hh : Honest cfg decimal w) (hp : StreamHolds decimal w (.await p))
    (hs : callStep cfg c decimal w ans p = (w', n)) :
    w'.ledger.db.Valid c ∧ Honest cfg decimal w' ∧ StreamHolds decimal w' n ∧
      w.ledger.db.Later w'.ledger.db := by
  cases p with
  | handler | stop => exact hp.elim
  | start =>
    simp only [callStep] at hs
    split at hs
    · cases hs
      have ha : w.Aside { w with running := true } := ⟨rfl, rfl, rfl, .refl _⟩
      exact ⟨hv, hh.aside ha, Idle.aside hp ha, .refl _⟩
    · cases hs
      exact ⟨hv, hh, hp, .refl _⟩
  | newListenKey =>
    simp only [callStep] at hs
    split at hs
    · cases hs
      exact ⟨hv, hh, hp, .refl _⟩
    · have ha : w.Aside { w with listenKey := some ans.listenKey } := ⟨rfl, rfl, rfl, .refl _⟩
      rcases hagain : (streamLoop cfg c decimal).again { w with listenKey := some ans.listenKey }
        (streamLoop cfg c decimal).base with ⟨v, m⟩
      obtain ⟨rfl, hn⟩ := again_holds (Idle.aside hp ha) hagain
      rw [hagain] at hs
      cases hs
      exact ⟨hv, hh.aside ha, hn, .refl _⟩
  | loop p =>
    rcases hstep : (streamLoop cfg c decimal).step w ans p with ⟨v, m⟩
    rw [callStep, hstep] at hs
    cases hs
    cases Retry.step_cases hstep with
    | tried step_eq =>
      obtain ⟨hv', hl, hh', hq, -⟩ := attempt_holds hv hh hp step_eq
      exact ⟨hv', hh', hq _ rfl, hl⟩
    | sleeps step_eq | stopped step_eq =>
      obtain ⟨hv', hl, hh', -, hi⟩ := attempt_holds hv hh hp step_eq
      exact ⟨hv', hh', hi _ rfl, hl⟩
    | woken | again | ended => exact ⟨hv, hh, hp, .refl _⟩
    | refreshed refresh_eq | refreshedEnded refresh_eq =>
      have ha : w.Aside v ∧ v.ledger = w.ledger := by
        rcases refresh_eq with rfl | ⟨f, hf, rfl⟩
        · exact ⟨⟨rfl, rfl, rfl, .refl _⟩, rfl⟩
        · cases hf
          dsimp only
          split <;> exact ⟨⟨rfl, rfl, rfl, .refl _⟩, rfl⟩
      exact ⟨ha.2 ▸ hv, hh.aside ha.1, Idle.aside hp ha.1, ha.1.later⟩

/-- A step of another task. -/
theorem other_step {p : Call cfg} {n : Next (Call cfg) CallEnd} (hv : w.ledger.db.Valid c)
    (hp : OtherHolds w (.await p)) (hs : callStep cfg c decimal w ans p = (w', n)) :
    w'.ledger.db.Valid c ∧ OtherHolds w' n ∧ w.Aside w' := by
  cases p with
  | start | newListenKey | loop => exact hp.elim
  | stop =>
    cases hs
    exact ⟨hv, trivial, rfl, rfl, rfl, .refl _⟩
  | handler t =>
    rcases hstep : Task.step cfg c w.ledger ans.ledger t with ⟨ledger, m⟩
    rw [callStep, hstep] at hs
    cases hs
    have hl := Task.step_later hv hp hstep
    refine ⟨Task.step_valid hv hstep, ?_, rfl, rfl, rfl, hl⟩
    rcases m with t' | r
    · exact Task.step_holds hv hp hstep
    · trivial

/-- The service is the first task. -/
def CallHolds (decimal : ToDecimal) (i : ℕ) (w : Shared) (n : Next (Call cfg) CallEnd) : Prop :=
  if i = 0 then StreamHolds decimal w n else OtherHolds w n

theorem userData_inductive {init : World → Prop} {requests : List Request} {stops : ℕ} :
    ((userData cfg c decimal init requests stops).restrict
      (StepMeets fun _ _ _ => True)).Inductive fun s =>
        (s.1.ledger.db.Valid c ∧ Honest cfg decimal s.1) ∧
          ∀ i n, s.2[i]? = some n → CallHolds decimal i s.1 n := by
  refine interleave_indexed (G := fun w : Shared => w.ledger.db.Valid c ∧ Honest cfg decimal w)
    (T := fun i w n => CallHolds decimal i w n) (fun w ts hi => ?_)
    fun i w a p w' n hG hT _ hs => ?_
  · obtain ⟨hv, -, hw, rfl⟩ := hi
    have htold : w.told = [] := by rw [hw]
    have hreceived : w.received = [] := by rw [hw]
    refine ⟨⟨hv, fun x hx => ?_, ?_, fun i hi => ?_⟩, fun i n hn => ?_⟩
    · rw [htold] at hx
      cases hx
    · rw [htold]
      exact List.Pairwise.nil
    · rw [hreceived] at hi
      exact absurd hi (Nat.not_lt_zero _)
    · unfold CallHolds
      cases i with
      | zero =>
        cases hn
        refine ⟨fun i hi => ?_, fun x hx => ?_⟩
        · rw [hreceived] at hi
          exact absurd hi (Nat.not_lt_zero i)
        · rw [htold] at hx
          cases hx
      | succ i =>
        rw [if_neg i.succ_ne_zero]
        have hmem := List.mem_of_getElem? (List.getElem?_cons_succ ▸ hn)
        rcases List.mem_append.mp hmem with hm | hm
        · obtain ⟨req, -, rfl⟩ := List.mem_map.mp hm
          cases req <;> trivial
        · rw [List.eq_of_mem_replicate hm]
          trivial
  · obtain ⟨hv, hh⟩ := hG
    unfold CallHolds at hT ⊢
    by_cases e : i = 0
    · rw [if_pos e] at hT ⊢
      obtain ⟨hv', hh', hn, hl⟩ := stream_step hv hh hT hs
      refine ⟨⟨hv', hh'⟩, hn, fun j m hj hm => ?_⟩
      have hj0 : j ≠ 0 := e ▸ hj
      rw [if_neg hj0] at hm ⊢
      exact hm.later hl
    · rw [if_neg e] at hT ⊢
      obtain ⟨hv', hn, ha⟩ := other_step hv hT hs
      refine ⟨⟨hv', hh.aside ha⟩, hn, fun j m hj hm => ?_⟩
      split at hm
      · rename_i hj0
        rw [if_pos hj0]
        exact hm.aside ha
      · rename_i hj0
        rw [if_neg hj0]
        exact hm.later ha.later

/-- **The clients are told what has happened.** Whatever the messages are, and whatever the handlers
do at the same time: the account clients are told of each message at most once, in the order of the
messages, and what they are told is that message. By then, and from then on, every position that was
in the tables when the message came, in a symbol that it ends, has ended. A message of which they are
not told is of no kind that concerns them, or an exception was logged for it. -/
theorem told_settled {init : World → Prop} {requests : List Request} {stops : ℕ}
    {s : Shared × List (Next (Call cfg) CallEnd)}
    (h : (userData cfg c decimal init requests stops).Reach s) :
    (s.1.told.map Prod.fst).Pairwise (· < ·) ∧
    (∀ x ∈ s.1.told, ∃ data db, s.1.received[x.1]? = some (some data, db) ∧
      noticeOf cfg data = some x.2 ∧
      Settled db s.1.ledger.db (eventOf decimal data).liquidates) ∧
    ∀ i, i + 1 < s.1.received.length → i ∈ s.1.told.map Prod.fst ∨ i ∈ s.1.raised ∨
      ∃ data db, s.1.received[i]? = some (some data, db) ∧
        dispatch decimal data = some .returns := by
  obtain ⟨-, hh⟩ := ((userData_inductive.unrestrict fun _ _ _ _ => trivial).reach h).1
  exact ⟨hh.ordered, hh.told, hh.accounted⟩

end

/-! ## A close that fills, and two messages that are not read to their end -/

namespace StreamSample

/-- The numerals of the messages below. -/
def decimal : ToDecimal := fun s => if s = "0.000" then some (some 0) else none

/-- The BTC position is closed at the exchange. -/
def closed : Json :=
  .obj [("e", .str "ACCOUNT_UPDATE"), ("E", .int 1), ("a", .obj [("m", .str "ORDER"),
    ("P", .arr [.obj [("s", .str "BTCUSDT"), ("pa", .str "0.000")]])])]

/-- The ETH position is reported as closed, and the next entry has no amount. -/
def broken : Json :=
  .obj [("e", .str "ACCOUNT_UPDATE"), ("a", .obj [("P", .arr [
    .obj [("s", .str "ETHUSDT"), ("pa", .str "0.000")], .obj [("pa", .null)]])])]

def started : Shared × List (Next (Call CryptoExchange.Sample.config) CallEnd) :=
  ({ ledger := CryptoExchange.Sample.twoPositions },
    [.await .start, .await (.handler (.closePosition (.selectPosition 1 "BTCUSDT")))])

def message (m : Option Json) : ℕ × StreamAnswer := (0, { frame := .message m })

def answers : List (ℕ × StreamAnswer) :=
  [(1, {}), (0, {}), (0, {}), (0, {}), message (some closed), (0, {}), (0, {}), (0, {}), (0, {}),
    message (some broken), (0, {}), (0, {}), (0, {}), message none, message none]

theorem started_init : (userData CryptoExchange.Sample.config (.numeric 8) decimal (fun _ => True)
    [.closePosition 1 "BTCUSDT"] 0).init started :=
  ⟨CryptoExchange.Sample.twoPositions_balanced.valid, trivial, rfl, rfl⟩

end StreamSample

open StreamSample in
/-- The clients are told of the first message. The second ends the ETH position, and raises then. -/
theorem told_settled_broken :
    ∃ s, (userData CryptoExchange.Sample.config (.numeric 8) decimal (fun _ => True)
        [.closePosition 1 "BTCUSDT"] 0).Reach s ∧
      s.1.told.map Prod.fst = [0] ∧ s.1.raised = [1, 2, 3] ∧
      s.1.ledger.db.positions.map Position.liquidated = [true, true] ∧
      ∀ x ∈ s.1.told, ∃ data db, s.1.received[x.1]? = some (some data, db) ∧
        noticeOf CryptoExchange.Sample.config data = some x.2 ∧
        Settled db s.1.ledger.db (eventOf decimal data).liquidates := by
  let f := exec (callStep CryptoExchange.Sample.config (.numeric 8) decimal) fun _ _ _ => True
  have hrun : (answers.foldlM f started).map (fun s => (s.1.told.map Prod.fst, s.1.raised,
      s.1.ledger.db.positions.map Position.liquidated)) = some ([0], [1, 2, 3], [true, true]) := by
    decide +kernel
  obtain ⟨s, hs, hvalues⟩ := Option.map_eq_some_iff.mp hrun
  simp only [Prod.mk.injEq] at hvalues
  obtain ⟨htold, hraised, hended⟩ := hvalues
  have hreach : ((userData CryptoExchange.Sample.config (.numeric 8) decimal (fun _ => True)
      [.closePosition 1 "BTCUSDT"] 0).restrict (StepMeets fun _ _ _ => True)).Reach s :=
    .foldlM (f := f) (fun _ _ _ _ h => exec_step h) (.init started_init) hs
  exact ⟨s, hreach.of_restrict, htold, hraised, hended, (told_settled hreach.of_restrict).2.1⟩

end UserData

end CryptoExchange
