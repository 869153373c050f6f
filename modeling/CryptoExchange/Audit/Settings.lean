import CryptoExchange.Audit.Emits
import CryptoExchange.Ledger.Effects

/-!
# Account settings: the exchange, the answer and the audit trail

`set_leverage` and `set_margin_type` (`app/api/routes/account.py`) over `change_leverage` and
`change_margin_type` (`app/services/binance_service.py`).

* `changeLeverage`, `changeMarginType`: what the exchange is asked for, and what the service returns.
* `SetLeverage.step`: the route of the leverage; the one of the margin type is `SetMarginType.step`.
* `SettingOutcome`: what a request asked for, what it emitted and whether it answered with success.
* `setting_reported_iff`: the three agree with the reply of the exchange for the margin type only.
-/

namespace CryptoExchange

open Lib

/-! ## The service -/

/-- A change of a setting at the exchange. -/
inductive SettingChange where
  | leverage (symbol : PyText) (leverage : ℤ)
  | marginType (symbol : String) (marginType : MarginType)
  deriving DecidableEq

/-- The changes that a method of the service asks for, and its result. -/
structure ServiceCall (R : Type) where
  asked : List SettingChange
  result : Except String R

/-- The keys of the reply to a change of the leverage. -/
structure LeverageReply where
  symbol : String
  leverage : ℤ
  maxNotionalValue : Option String

namespace BinanceService

def notConfigured : String := "Binance API credentials are not configured"

/-- `change_leverage`: it defines `_request`, and returns `None` without running it. -/
def changeLeverage (cfg : Config) (_symbol : PyText) (_leverage : ℤ) :
    ServiceCall (Option LeverageReply) :=
  if ¬cfg.hasCredentials then ⟨[], .error notConfigured⟩ else ⟨[], .ok none⟩

/-- `change_margin_type`. -/
def changeMarginType (cfg : Config) (symbol : String) (marginType : MarginType)
    (reply : Except String ExchangeOrder) : ServiceCall ExchangeOrder :=
  if ¬cfg.hasCredentials then ⟨[], .error notConfigured⟩
  else ⟨[.marginType symbol marginType], reply⟩

end BinanceService

/-! ## The routes -/

namespace SetLeverage

/-- `ip` is the client's host. -/
structure Request where
  userId : ℤ
  payload : LeverageUpdate
  ip : Option String

/-- `LeverageResponse`. -/
structure Response where
  symbol : String
  leverage : ℤ
  maxNotionalValue : String

inductive Phase where
  | changeLeverage (r : Request)

/-- `result["symbol"]` raises when the result is `None`. -/
def step (cfg : Config) (w : World) (_ : Answer) : Phase → World × After Phase Response
  | .changeLeverage r =>
    if ¬cfg.hasCredentials then (w, .done (.error (.http 400 "Exchange integration not configured")))
    else
      match (BinanceService.changeLeverage cfg (r.payload.upperSymbol cfg)
        r.payload.leverage).result with
      | .error text => (w, .done (.error (.http 400 text)))
      | .ok result =>
        (w.emit (leverageChanged cfg r.ip r.userId r.payload).event,
          match result with
          | none => .done (.error (.http 400 "'NoneType' object is not subscriptable"))
          | some reply =>
            .done (.ok ⟨reply.symbol, reply.leverage, reply.maxNotionalValue.getD ""⟩))

/-- What the exchange is asked for in a phase. -/
def asks (cfg : Config) : Phase → List SettingChange
  | .changeLeverage r =>
    if ¬cfg.hasCredentials then []
    else (BinanceService.changeLeverage cfg (r.payload.upperSymbol cfg) r.payload.leverage).asked

end SetLeverage

namespace SetMarginType

/-- What the exchange is asked for in a phase. -/
def asks (cfg : Config) (reply : Except String ExchangeOrder) : Phase → List SettingChange
  | .changeMarginType r =>
    if ¬cfg.hasCredentials then []
    else (BinanceService.changeMarginType cfg (cfg.upper r.symbol) r.marginType reply).asked
  | .selectPositions _ | .commit _ _ => []

/-- The route goes on with the reply that the service returns. -/
theorem step_changeMarginType {cfg : Config} (hc : cfg.hasCredentials) (c : Column) (w : World)
    (a : Answer) (r : Request) :
    step cfg c w a (.changeMarginType r) =
      match (BinanceService.changeMarginType cfg (cfg.upper r.symbol) r.marginType
        a.exchange).result with
      | .error text => (w, .done (.error (.http 400 text)))
      | .ok _ => (w.accept (.changeMarginType (cfg.upper r.symbol) r.marginType),
          .await (.selectPositions r)) := by
  have hresult : (BinanceService.changeMarginType cfg (cfg.upper r.symbol) r.marginType
      a.exchange).result = a.exchange := by
    simp only [BinanceService.changeMarginType, hc, not_true_eq_false, if_false]
  rw [hresult]
  cases ha : a.exchange with
  | error text => simp [step, hc, ha]
  | ok reply => simp [step, hc, ha]

end SetMarginType

/-! ## A request and its outcome -/

inductive SettingRequest where
  | leverage (r : SetLeverage.Request)
  | marginType (r : SetMarginType.Request)

namespace SettingRequest

variable (cfg : Config)

/-- The change that the request is for. -/
def change : SettingRequest → SettingChange
  | leverage r => .leverage (r.payload.upperSymbol cfg) r.payload.leverage
  | marginType r => .marginType (cfg.upper r.symbol) r.marginType

def event : SettingRequest → Event
  | leverage r => (leverageChanged cfg r.ip r.userId r.payload).event
  | marginType r => SetMarginType.changed cfg r

end SettingRequest

/-- What a request asked for, what it emitted, and whether it answered with success. -/
structure SettingOutcome where
  asked : List SettingChange
  emitted : List Event
  succeeded : Bool

/-- A request handled with the answers to its calls. -/
def handleSetting (cfg : Config) (c : Column) (q : SettingRequest) (as : List Answer) (w : World) :
    Option SettingOutcome :=
  match q with
  | .leverage r =>
    (run (SetLeverage.step cfg) as w (.changeLeverage r)).map fun x =>
      { asked := (steps (SetLeverage.step cfg) as w (.changeLeverage r)).flatMap fun s =>
          SetLeverage.asks cfg s.2.2
        emitted := x.1.events.drop w.events.length
        succeeded := x.2.isOk }
  | .marginType r =>
    (run (SetMarginType.step cfg c) as w (.changeMarginType r)).map fun x =>
      { asked := (steps (SetMarginType.step cfg c) as w (.changeMarginType r)).flatMap fun s =>
          SetMarginType.asks cfg s.2.1.exchange s.2.2
        emitted := x.1.events.drop w.events.length
        succeeded := x.2.isOk }

/-- The exchange accepts the change, which is the first call. -/
def Accepts (as : List Answer) : Prop := ∃ a ∈ as.head?, ∃ reply, a.exchange = .ok reply

/-- The two calls to the database behind it work. -/
def DatabaseAnswers (as : List Answer) : Prop := ∀ a ∈ as.tail.take 2, a.fails = false

/-- The exchange was asked for exactly this change, the answer is a success and the event is emitted
exactly when it accepted. -/
structure SettingReported (cfg : Config) (q : SettingRequest) (as : List Answer) (o : SettingOutcome) :
    Prop where
  asked : o.asked = [q.change cfg]
  answer : o.succeeded ↔ Accepts as
  event : Accepts as → o.emitted = [q.event cfg]
  noEvent : ¬Accepts as → o.emitted = []

section

variable {cfg : Config} {c : Column} {as : List Answer} {w : World} {o : SettingOutcome}

/-- The exchange is not asked, the event is emitted and the answer is an error. -/
theorem leverage_outcome (hc : cfg.hasCredentials) {r : SetLeverage.Request}
    (h : handleSetting cfg c (.leverage r) as w = some o) :
    o = ⟨[], [(leverageChanged cfg r.ip r.userId r.payload).event], false⟩ := by
  cases as with
  | nil => cases h
  | cons a as =>
    have hstep : SetLeverage.step cfg w a (.changeLeverage r) =
        (w.emit (leverageChanged cfg r.ip r.userId r.payload).event,
          .done (.error (.http 400 "'NoneType' object is not subscriptable"))) := by
      simp only [SetLeverage.step, BinanceService.changeLeverage, hc, not_true_eq_false, if_false]
    have hasked : SetLeverage.asks cfg (.changeLeverage r) = [] := by
      simp only [SetLeverage.asks, BinanceService.changeLeverage, hc, not_true_eq_false, if_false]
    rw [handleSetting, run_done hstep, steps_done hstep] at h
    cases h
    simp [hasked, World.emit, Except.isOk, Except.toBool]

theorem SetMarginType.step_reflect {w' : World} {a : Answer} {p p' : SetMarginType.Phase}
    (h : SetMarginType.step cfg c w a p = (w', .await p')) (hp : ∀ r, p ≠ .changeMarginType r) :
    ∀ r, p' ≠ .changeMarginType r := by
  rintro r rfl
  cases p with
  | changeMarginType r => exact hp r rfl
  | selectPositions r =>
    simp only [SetMarginType.step] at h
    split at h <;> cases h
  | commit r ps =>
    simp only [SetMarginType.step] at h
    split at h
    · cases h
    split at h <;> cases h

variable (cfg c as w) in
/-- After the acceptance, the exchange is not asked again. -/
theorem SetMarginType.asks_reflect {p : SetMarginType.Phase} (hp : ∀ r, p ≠ .changeMarginType r) :
    ((steps (SetMarginType.step cfg c) as w p).flatMap fun s =>
      SetMarginType.asks cfg s.2.1.exchange s.2.2) = [] := by
  induction as generalizing w p with
  | nil => rfl
  | cons a as ih =>
    have hasks : SetMarginType.asks cfg a.exchange p = [] := by
      cases p with
      | changeMarginType r => exact absurd rfl (hp r)
      | selectPositions | commit => rfl
    rw [steps, List.flatMap_cons, hasks, List.nil_append]
    split
    · rename_i hs
      exact ih _ (SetMarginType.step_reflect hs hp)
    · rfl

/-- After the acceptance: the change is committed and the event is emitted when both calls to the
database work. -/
theorem SetMarginType.run_reflect {r : SetMarginType.Request} {w' : World}
    {res : Except Failure String}
    (h : run (SetMarginType.step cfg c) as w (.selectPositions r) = some (w', res)) :
    (∀ a ∈ as.take 2, a.fails = false) ∧ res.isOk ∧
        (∃ db', w.db.flush c (SetMarginType.writes cfg r (w.db.positions.filter fun p =>
            p.userId = r.userId)) = some db' ∧
          w' = ({ w with db := db' } : World).emit (SetMarginType.changed cfg r)) ∨
      ¬(∀ a ∈ as.take 2, a.fails = false) ∧ res.isOk = false ∧ w' = w := by
  cases as with
  | nil => cases h
  | cons a as =>
    cases ha : a.fails with
    | true =>
      have hstep : SetMarginType.step cfg c w a (.selectPositions r) =
          (w, .done (.error .database)) := by simp [SetMarginType.step, ha]
      rw [run_done hstep] at h
      cases h
      exact .inr ⟨by simp [ha], rfl, rfl⟩
    | false =>
      let ps := w.db.positions.filter fun p => p.userId = r.userId
      have hstep : SetMarginType.step cfg c w a (.selectPositions r) =
          (w, .await (.commit r ps)) := by simp [SetMarginType.step, ha, ps]
      rw [run_await hstep] at h
      cases as with
      | nil => cases h
      | cons b as =>
        cases hb : b.fails with
        | true =>
          have hcommit : SetMarginType.step cfg c w b (.commit r ps) =
              (w, .done (.error .database)) := by simp [SetMarginType.step, hb]
          rw [run_done hcommit] at h
          cases h
          exact .inr ⟨by simp [hb], rfl, rfl⟩
        | false =>
          -- the update of a margin type is never refused
          obtain ⟨db', hflush⟩ : ∃ db', w.db.flush c (SetMarginType.writes cfg r ps) = some db' :=
            ⟨_, SetMarginType.flush_loop w.db⟩
          have hcommit : SetMarginType.step cfg c w b (.commit r ps) =
              (({ w with db := db' } : World).emit (SetMarginType.changed cfg r),
                .done (.ok ("Margin type for " ++ cfg.upper r.symbol ++ " set to " ++
                  r.marginType.text))) := by
            simp [SetMarginType.step, hb, World.commit_of_flush w hflush]
          rw [run_done hcommit] at h
          cases h
          exact .inl ⟨by simp [ha, hb], rfl, _, hflush, rfl⟩

/-- The exchange is asked once; a change that it accepted is reported when the database answers. -/
theorem marginType_outcome (hc : cfg.hasCredentials) {r : SetMarginType.Request}
    (h : handleSetting cfg c (.marginType r) as w = some o) :
    (¬Accepts as ∧ o = ⟨[.marginType (cfg.upper r.symbol) r.marginType], [], false⟩) ∨
    (Accepts as ∧ DatabaseAnswers as ∧
      o = ⟨[.marginType (cfg.upper r.symbol) r.marginType], [SetMarginType.changed cfg r], true⟩) ∨
    Accepts as ∧ ¬DatabaseAnswers as ∧
      o = ⟨[.marginType (cfg.upper r.symbol) r.marginType], [], false⟩ := by
  cases as with
  | nil => cases h
  | cons a as =>
    have hasked : SetMarginType.asks cfg a.exchange (.changeMarginType r) =
        [.marginType (cfg.upper r.symbol) r.marginType] := by
      simp only [SetMarginType.asks, BinanceService.changeMarginType, hc, not_true_eq_false, if_false]
    have hreply : (BinanceService.changeMarginType cfg (cfg.upper r.symbol) r.marginType
        a.exchange).result = a.exchange := by
      simp only [BinanceService.changeMarginType, hc, not_true_eq_false, if_false]
    have hstep := SetMarginType.step_changeMarginType hc c w a r
    rw [hreply] at hstep
    obtain ⟨⟨w', res⟩, hrun, rfl⟩ := Option.map_eq_some_iff.mp h
    cases ha : a.exchange with
    | error text =>
      rw [ha] at hstep
      rw [run_done hstep] at hrun
      cases hrun
      rw [steps_done hstep]
      refine .inl ⟨?_, ?_⟩
      · rintro ⟨a', ha', reply, he⟩
        cases ha'
        cases ha.symm.trans he
      · simp [hasked, Except.isOk, Except.toBool]
    | ok reply =>
      rw [ha] at hstep
      rw [run_await hstep] at hrun
      rw [steps_await hstep]
      have haccepts : Accepts (a :: as) := ⟨a, rfl, reply, ha⟩
      have hnone := SetMarginType.asks_reflect cfg c as
        (w.accept (.changeMarginType (cfg.upper r.symbol) r.marginType))
        (p := .selectPositions r) (by simp)
      rcases SetMarginType.run_reflect hrun with ⟨hdb, hok, db', -, rfl⟩ | ⟨hdb, hok, rfl⟩
      · refine .inr (.inl ⟨haccepts, hdb, ?_⟩)
        simp only [List.flatMap_cons, hasked, hnone, hok]
        simp [World.accept, World.emit]
      · refine .inr (.inr ⟨haccepts, hdb, ?_⟩)
        simp only [List.flatMap_cons, hasked, hnone, hok]
        simp [World.accept]

/-- **Settings are reported** as the exchange replied exactly when the request is one for the margin
type, and the database works behind an acceptance. The leverage never reaches the exchange. -/
theorem setting_reported_iff (hc : cfg.hasCredentials) {q : SettingRequest}
    (h : handleSetting cfg c q as w = some o) :
    SettingReported cfg q as o ↔
      ∃ r, q = .marginType r ∧ (Accepts as → DatabaseAnswers as) := by
  cases q with
  | leverage r =>
    rw [leverage_outcome hc h]
    constructor
    · rintro ⟨hasked, -⟩
      cases hasked
    · rintro ⟨r', e, -⟩
      cases e
  | marginType r =>
    rcases marginType_outcome hc h with ⟨hno, rfl⟩ | ⟨hyes, hdb, rfl⟩ | ⟨hyes, hdb, rfl⟩
    · refine ⟨fun _ => ⟨r, rfl, fun h => absurd h hno⟩, fun _ => ⟨rfl, ?_, fun h => absurd h hno,
        fun _ => rfl⟩⟩
      exact ⟨fun h => (Bool.false_ne_true h).elim, fun h => absurd h hno⟩
    · exact ⟨fun _ => ⟨r, rfl, fun _ => hdb⟩, fun _ => ⟨rfl, ⟨fun _ => hyes, fun _ => rfl⟩,
        fun _ => rfl, fun h => absurd hyes h⟩⟩
    · refine ⟨fun hr => ?_, ?_⟩
      · exact absurd (hr.answer.mpr hyes) Bool.false_ne_true
      · rintro ⟨-, -, hdb'⟩
        exact absurd (hdb' hyes) hdb

end

/-! ## A change of each setting -/

namespace Sample

def isolate : SettingRequest := .marginType ⟨1, "btcusdt", .isolated, none⟩

/-- Leverage 5 for user 1. -/
def raiseLeverage : SettingRequest :=
  .leverage { userId := 1, payload := ⟨⟨"btcusdt", []⟩, .nil, 5, by decide, by decide⟩, ip := none }

/-- The exchange accepts. -/
def acceptedChange : List Answer := [{ exchange := .ok {} }, {}, {}]

end Sample

open Sample in
/-- An accepted margin type is asked for, reported and emitted. -/
theorem setting_reported_isolated :
    ∃ o, handleSetting config .exact isolate acceptedChange (start 1000) = some o ∧
      (SettingReported config isolate acceptedChange o ↔
        ∃ r, isolate = .marginType r ∧
          (Accepts acceptedChange → DatabaseAnswers acceptedChange)) := by
  have h : ∃ o, handleSetting config .exact isolate acceptedChange (start 1000) = some o := ⟨_, rfl⟩
  obtain ⟨o, h⟩ := h
  exact ⟨o, h, setting_reported_iff rfl h⟩

open Sample in
/-- The leverage is not asked for. The event is emitted, and the answer is an error. -/
theorem leverage_not_asked :
    ∃ o, handleSetting config .exact raiseLeverage acceptedChange (start 1000) = some o ∧
      Accepts acceptedChange ∧ o.asked = [] ∧ o.succeeded = false ∧
      o.emitted = [raiseLeverage.event config] ∧
      ¬SettingReported config raiseLeverage acceptedChange o := by
  refine ⟨_, rfl, ⟨_, rfl, {}, rfl⟩, rfl, rfl, rfl, ?_⟩
  rintro ⟨hasked, -⟩
  cases hasked

end CryptoExchange
