import CryptoExchange.Audit.Storable
import CryptoExchange.Audit.Storage
import CryptoExchange.Gateway.Ownership

/-!
# The audit events of the requests

Every call of `emit` that a request makes: the middleware, the login, the orders and the account,
the API keys and the reads of the regulators. What came from a column of the tables, or was in a
query before the call, fits a column; the rest is as the client sent it. A text that has been sent
to the exchange has no lone surrogate, since it has been encoded, and so have those of a URL and of
a header; the symbol of a leverage change is sent nowhere.

* `Emit`: the calls, each with what it reads. `Emit.call` are its arguments.
* `Emit.Fits`: the condition on what the client sent. It is exact (`Emit.storable_iff`).
* `audited_iff`: with the database up, the task of a call writes the row of its event, once,
  exactly when the condition holds. `login_not_audited` is a failed login that is not in the log.
-/

namespace CryptoExchange

open Lib

/-! ## Bodies -/

/-- A request body that passed validation. -/
structure LoginRequest where
  username : String
  password : String
  username_min : 3 ≤ username.length
  password_min : 6 ≤ password.length

/-- A request body that passed validation. Its `symbol` is any text: `json.loads` keeps the
surrogates that have no other half, and only a text with a bound on its length is refused for one. -/
structure LeverageUpdate where
  symbol : PyText
  symbol_joined : symbol.Joined
  leverage : ℤ
  leverage_ge : 1 ≤ leverage
  leverage_le : leverage ≤ 125

/-! ## The events -/

/-- `AuthMiddleware.dispatch` with a key that does not authenticate. -/
def apiKeyAuthFailure (r : HttpRequest) : Event where
  eventType := "API_KEY_AUTH_FAILURE"
  ipAddress := r.client
  eventData := some [("key_id", .str (strip (r.xApiKey.getD ""))), ("path", .str r.path)]
  severity := "WARN"

/-- `AuthMiddleware.dispatch` with a token that does not decode. -/
def authTokenInvalid (r : HttpRequest) : Event where
  eventType := "AUTH_TOKEN_INVALID"
  ipAddress := r.client
  eventData := some [("path", .str r.path)]
  severity := "WARN"

section

variable (cfg : Config) (ip : Option String)

def authLoginFailure (payload : LoginRequest) : Event where
  eventType := "AUTH_LOGIN_FAILURE"
  actorUsername := payload.username
  ipAddress := ip
  eventData := some [("reason", .str "Invalid username or password")]
  severity := "WARN"

def authLoginSuccess (user : User) : Event where
  eventType := "AUTH_LOGIN_SUCCESS"
  actorId := user.id
  actorUsername := user.username
  ipAddress := ip
  eventData := some [("role", .str user.role)]

/-- `payload.symbol.upper()`. -/
def LeverageUpdate.upperSymbol (payload : LeverageUpdate) : PyText := payload.symbol.map cfg.upper

/-- `change_leverage` of the exchange's service returns `None` for every symbol. -/
def leverageChanged (userId : ℤ) (payload : LeverageUpdate) : EmitCall where
  event :=
    { eventType := "ACCOUNT_LEVERAGE_CHANGED"
      actorId := userId
      targetType := "account"
      targetId := toString userId
      ipAddress := ip
      eventData := some
        [("symbol", jsonStr? (payload.upperSymbol cfg).toString?),
         ("leverage", .int payload.leverage)] }
  surrogates := if (payload.upperSymbol cfg).toString? = none then ["symbol"] else []

/-- Who sent the request: its `user_id`, and the `username` in its token. -/
structure Actor where
  id : Option PgInt
  username : Option (Varchar 64)

def apiKeyCreated (actor : Actor) (keyId : String) (body : ApiKeyCreate) : Event where
  eventType := "API_KEY_CREATED"
  actorId := actor.id.map PgInt.val
  actorUsername := actor.username.map Varchar.text
  targetType := "api_key"
  targetId := keyId
  ipAddress := ip
  eventData := some [("label", .str body.label), ("scopes", .arr (body.scopes.map Json.str))]

/-- `API_KEY_DEACTIVATED` and `API_KEY_REGENERATED`. -/
def apiKeyChanged (eventType : String) (actor : Actor) (keyId : String) : Event where
  eventType
  actorId := actor.id.map PgInt.val
  actorUsername := actor.username.map Varchar.text
  targetType := "api_key"
  targetId := keyId
  ipAddress := ip

/-- A GET route under `/regulator`, with its filters. -/
inductive RegulatorRead where
  | overview
  | positions (symbol : Option String) (userId : Option ℤ)
  | exposure
  | liquidations (symbol : Option String) (userId : Option ℤ)
  | users (role : Option String)
  | snapshot

/-- The filters have no `U+0000`. -/
def RegulatorRead.NoNulFilter : RegulatorRead → Prop
  | .positions symbol _ | .liquidations symbol _ => ∀ s ∈ symbol, NoNul s
  | .users role => ∀ s ∈ role, NoNul s
  | _ => True

def RegulatorRead.data : RegulatorRead → Dict
  | .overview => [("endpoint", .str "/regulator/overview")]
  | .positions symbol userId =>
    [("endpoint", .str "/regulator/positions"), ("symbol", jsonStr? symbol),
     ("user_id", jsonInt? userId)]
  | .exposure => [("endpoint", .str "/regulator/exposure")]
  | .liquidations symbol userId =>
    [("endpoint", .str "/regulator/liquidations"), ("symbol", jsonStr? symbol),
     ("user_id", jsonInt? userId)]
  | .users role => [("endpoint", .str "/regulator/users"), ("role_filter", jsonStr? role)]
  | .snapshot => [("endpoint", .str "/regulator/snapshot")]

def regulatorAccess (actor : Actor) (data : Dict) : Event where
  eventType := "REGULATOR_ACCESS"
  actorId := actor.id.map PgInt.val
  actorUsername := actor.username.map Varchar.text
  ipAddress := ip
  eventData := some data

end

/-- `regulator_stream` passes no `ip_address`. -/
def regulatorStream (actor : Actor) : Event :=
  regulatorAccess none actor [("endpoint", .str "/regulator/stream"), ("action", .str "connect")]

/-- The rejection of an order of the size `float("inf")`, which passes `gt=0`: the margin that it
needs is infinite. -/
def infiniteOrderRejected (user : User) (symbol : String) (leverage : Option ℤ) : EmitCall where
  event :=
    { eventType := "RISK_CHECK_REJECTED"
      actorId := user.id
      actorUsername := user.username
      targetType := "order"
      eventData := some
        [("symbol", .str symbol), ("reason", .str "Insufficient balance for required margin"),
         ("requested_leverage", jsonInt? leverage), ("order_size", .null)]
      severity := "WARN" }
  infinite := ["order_size"]

/-! ## The calls -/

/-- A row of `users`. -/
structure StoredUser (u : User) : Prop where
  id : FitsInteger u.id
  username : FitsVarchar 64 u.username
  tier : FitsVarchar 32 u.tier
  role : FitsVarchar 32 u.role

/-- A call of `emit`, with what the tables say about its arguments. -/
inductive Emit (cfg : Config) where
  | apiKeyAuthFailure (r : HttpRequest) (hkey : NoNul (strip (r.xApiKey.getD "")))
  | authTokenInvalid (r : HttpRequest)
  | loginFailure (ip : Option String) (payload : LoginRequest) (h : NoNul payload.username)
  | loginSuccess (ip : Option String) (user : User) (h : StoredUser user)
  | riskCheckRejected (s : CreateOrder.Loaded) (r : Rejection) (h : StoredUser s.user)
      (hid : s.payload.userId = s.user.id) (hr : NoNul r.reason)
  | infiniteOrderRejected (user : User) (symbol : String) (leverage : Option ℤ)
      (h : StoredUser user)
  | riskCheckApproved (s : CreateOrder.Placed cfg) (h : StoredUser s.user)
      (hid : s.payload.userId = s.user.id) (horder : FitsInteger s.orderId)
      (hsymbol : FitsVarchar 24 s.payload.symbol)
  | orderCreated (ip : Option String) (payload : OrderCreate) (r : CreateOrder.Reply)
      (hid : FitsInteger payload.userId) (horder : FitsInteger r.order.id)
      (hsymbol : FitsVarchar 24 r.order.symbol)
  | orderCancelled (ip : Option String) (orderId : ℕ) (userId : ℤ) (order : Order)
      (hid : FitsInteger userId) (horder : FitsInteger orderId)
      (hsymbol : FitsVarchar 24 order.symbol)
  | orderCloseRequested (ip : Option String) (symbol : String) (userId : ℤ)
      (hid : FitsInteger userId) (hsymbol : FitsVarchar 24 (cfg.upper symbol))
  | leverageChanged (ip : Option String) (userId : ℤ) (payload : LeverageUpdate)
  | marginTypeChanged (r : SetMarginType.Request) (hid : FitsInteger r.userId)
  | apiKeyCreated (ip : Option String) (actor : Actor) (keyId : Varchar 32) (body : ApiKeyCreate)
      (hlabel : FitsVarchar 128 body.label) (hscopes : body.Valid)
  | apiKeyDeactivated (ip : Option String) (actor : Actor) (keyId : Varchar 32)
  | apiKeyRegenerated (ip : Option String) (actor : Actor) (keyId : Varchar 32)
  | regulatorAccess (ip : Option String) (actor : Actor) (read : RegulatorRead)
  | regulatorStream (actor : Actor)

theorem accepted_jsonInt? (n : Option ℤ) : (jsonInt? n).Accepted := by
  cases n <;> trivial

theorem accepted_jsonStr? {s : Option String} : (jsonStr? s).Accepted ↔ ∀ t ∈ s, NoNul t := by
  cases s with
  | none => simp [jsonStr?]
  | some s => simp [jsonStr?]

theorem RegulatorRead.accepted_data (read : RegulatorRead) :
    (Json.obj read.data).Accepted ↔ read.NoNulFilter := by
  cases read <;> simp +decide [data, NoNulFilter, accepted_jsonStr?, accepted_jsonInt?]

theorem scopes_noNul : ∀ t ∈ availableScopes, NoNul t := by decide

namespace Emit

variable {cfg : Config}

def call : Emit cfg → EmitCall
  | apiKeyAuthFailure r _ => { event := CryptoExchange.apiKeyAuthFailure r }
  | authTokenInvalid r => { event := CryptoExchange.authTokenInvalid r }
  | loginFailure ip payload _ => { event := authLoginFailure ip payload }
  | loginSuccess ip user _ => { event := authLoginSuccess ip user }
  | riskCheckRejected s r _ _ _ => { event := s.rejected cfg r }
  | infiniteOrderRejected user symbol leverage _ =>
    CryptoExchange.infiniteOrderRejected user symbol leverage
  | riskCheckApproved s _ _ _ _ => { event := s.approvedEvent }
  | orderCreated ip payload r _ _ _ => { event := CryptoExchange.orderCreated cfg ip payload r }
  | orderCancelled ip orderId userId order _ _ _ =>
    { event := CryptoExchange.orderCancelled ip orderId userId order }
  | orderCloseRequested ip symbol userId _ _ =>
    { event := CryptoExchange.orderCloseRequested cfg ip symbol userId }
  | leverageChanged ip userId payload => CryptoExchange.leverageChanged cfg ip userId payload
  | marginTypeChanged r _ => { event := SetMarginType.changed cfg r }
  | apiKeyCreated ip actor keyId body _ _ =>
    { event := CryptoExchange.apiKeyCreated ip actor keyId.text body }
  | apiKeyDeactivated ip actor keyId =>
    { event := apiKeyChanged ip "API_KEY_DEACTIVATED" actor keyId.text }
  | apiKeyRegenerated ip actor keyId =>
    { event := apiKeyChanged ip "API_KEY_REGENERATED" actor keyId.text }
  | regulatorAccess ip actor read => { event := CryptoExchange.regulatorAccess ip actor read.data }
  | regulatorStream actor => { event := CryptoExchange.regulatorStream actor }

/-! ## The condition -/

/-- The client's address fits its column. -/
def FitsIp (ip : Option String) : Prop := ∀ s ∈ ip, FitsVarchar 45 s

/-- What the client sent fits: its address, the user name of a failed login, the `user_id` of a
leverage change; a path, a symbol and a filter have no `U+0000`, and the symbol of a leverage change
no lone surrogate; the size of an order is finite. -/
def Fits : Emit cfg → Prop
  | apiKeyAuthFailure r _ | authTokenInvalid r => FitsIp r.client ∧ NoNul r.path
  | loginFailure ip payload _ => FitsIp ip ∧ payload.username.length ≤ 64
  | riskCheckRejected s _ _ _ _ => NoNul s.payload.symbol
  | infiniteOrderRejected _ _ _ _ => False
  | leverageChanged ip userId payload =>
    FitsIp ip ∧ FitsInteger userId ∧ ∃ s, (payload.upperSymbol cfg).toString? = some s ∧ NoNul s
  | marginTypeChanged r _ => FitsIp r.ip ∧ NoNul (cfg.upper r.symbol)
  | regulatorAccess ip _ read => FitsIp ip ∧ read.NoNulFilter
  | loginSuccess ip _ _ | orderCreated ip _ _ _ _ _ | orderCancelled ip _ _ _ _ _ _
  | orderCloseRequested ip _ _ _ _ | apiKeyCreated ip _ _ _ _ _ | apiKeyDeactivated ip _ _
  | apiKeyRegenerated ip _ _ => FitsIp ip
  | riskCheckApproved _ _ _ _ _ | regulatorStream _ => True

/-- The columns of an event whose texts are the code's own, but for the named ones. -/
theorem storable_event {e : Event} :
    EmitCall.Storable { event := e } ↔
      FitsVarchar 64 e.eventType ∧ FitsVarchar 16 e.severity ∧
      (∀ n ∈ e.actorId, FitsInteger n) ∧ (∀ s ∈ e.actorUsername, FitsVarchar 64 s) ∧
      (∀ s ∈ e.targetType, FitsVarchar 64 s) ∧ (∀ s ∈ e.targetId, FitsVarchar 64 s) ∧
      FitsIp e.ipAddress ∧ ∀ d ∈ e.eventData, (Json.obj d).Accepted := by
  constructor
  · rintro ⟨h₁, h₂, h₃, h₄, h₅, h₆, h₇, -, -, h₈⟩
    exact ⟨h₁, h₈, h₂, h₃, h₄, h₅, h₆, h₇⟩
  · rintro ⟨h₁, h₈, h₂, h₃, h₄, h₅, h₆, h₇⟩
    exact ⟨h₁, h₂, h₃, h₄, h₅, h₆, h₇, rfl, rfl, h₈⟩

/-- **The condition** is exact: the columns take the row of a call exactly when what the client
sent fits. -/
theorem storable_iff (x : Emit cfg) : x.call.Storable ↔ x.Fits := by
  cases x with
  | apiKeyAuthFailure r hkey =>
    rw [call, storable_event]
    simp +decide [CryptoExchange.apiKeyAuthFailure, Fits, hkey]
  | authTokenInvalid r =>
    rw [call, storable_event]
    simp +decide [CryptoExchange.authTokenInvalid, Fits]
  | loginFailure ip payload h =>
    rw [call, storable_event]
    simp +decide [authLoginFailure, Fits, FitsVarchar, h, and_comm]
  | loginSuccess ip user h =>
    rw [call, storable_event]
    simp +decide [authLoginSuccess, Fits, h.id, h.username, h.role.2]
  | riskCheckRejected s r h hid hr =>
    rw [call, storable_event]
    simp +decide [CreateOrder.Loaded.rejected, Fits, FitsIp, hid, h.id, h.username, hr,
      accepted_jsonInt?]
  | infiniteOrderRejected user symbol leverage h =>
    refine iff_of_false (fun hs => ?_) id
    exact absurd hs.finite (by simp [call, CryptoExchange.infiniteOrderRejected])
  | riskCheckApproved s h hid horder hsymbol =>
    rw [call, storable_event]
    have hn : FitsVarchar 64 s.orderId.repr := (fitsVarchar_toString horder).mono (by decide)
    simp +decide [CreateOrder.Placed.approvedEvent, Fits, FitsIp, hid, h.id, h.username, h.tier.2,
      hsymbol.2, hn]
  | orderCreated ip payload r hid horder hsymbol =>
    have hn : FitsVarchar 64 r.order.id.repr := (fitsVarchar_toString horder).mono (by decide)
    have hside : NoNul r.order.side.text := by cases r.order.side <;> decide
    have htype : NoNul r.order.orderType.text := by cases r.order.orderType <;> decide
    rw [call, storable_event]
    simp +decide [CryptoExchange.orderCreated, Fits, hid, hsymbol.2, hside, htype, hn]
  | orderCancelled ip orderId userId order hid horder hsymbol =>
    have hn : FitsVarchar 64 orderId.repr := (fitsVarchar_toString horder).mono (by decide)
    rw [call, storable_event]
    simp +decide [CryptoExchange.orderCancelled, Fits, hid, hsymbol.2, hn]
  | orderCloseRequested ip symbol userId hid hsymbol =>
    rw [call, storable_event]
    simp +decide [CryptoExchange.orderCloseRequested, Fits, hid, hsymbol.2,
      hsymbol.mono (by decide : 24 ≤ 64)]
  | leverageChanged ip userId payload =>
    have hn : FitsInteger userId → FitsVarchar 64 userId.repr := fun h =>
      (fitsVarchar_toString h).mono (by decide)
    cases hs : (payload.upperSymbol cfg).toString? with
    | none =>
      refine iff_of_false (fun h => ?_) ?_
      · exact absurd h.encodable (by simp [call, CryptoExchange.leverageChanged, hs])
      · rintro ⟨-, -, s, h, -⟩
        cases hs.symm.trans h
    | some symbol =>
      have hcall : (leverageChanged ip userId payload : Emit cfg).call =
          { event := (CryptoExchange.leverageChanged cfg ip userId payload).event } := by
        simp [call, CryptoExchange.leverageChanged, hs]
      rw [hcall, storable_event]
      simp +decide [CryptoExchange.leverageChanged, Fits, hs, jsonStr?]
      constructor
      · rintro ⟨hid, -, hip, hsymbol⟩
        exact ⟨hip, hid, hsymbol⟩
      · rintro ⟨hip, hid, hsymbol⟩
        exact ⟨hid, hn hid, hip, hsymbol⟩
  | marginTypeChanged r hid =>
    have hn : FitsVarchar 64 r.userId.repr := (fitsVarchar_toString hid).mono (by decide)
    have htype : NoNul r.marginType.text := by cases r.marginType <;> decide
    rw [call, storable_event]
    simp +decide [SetMarginType.changed, Fits, hid, hn, htype]
  | apiKeyCreated ip actor keyId body hlabel hvalid =>
    have hkey : FitsVarchar 64 keyId.text := keyId.fits.mono (by decide)
    have hscopes : (Json.arr (body.scopes.map Json.str)).Accepted := by
      rw [Json.accepted_arr]
      intro x hx
      obtain ⟨t, ht, rfl⟩ := List.mem_map.mp hx
      exact scopes_noNul t (hvalid t ht)
    rw [call, storable_event]
    simp +decide [CryptoExchange.apiKeyCreated, Fits, hlabel.2, hkey, hscopes]
  | apiKeyDeactivated ip actor keyId | apiKeyRegenerated ip actor keyId =>
    have hkey : FitsVarchar 64 keyId.text := keyId.fits.mono (by decide)
    rw [call, storable_event]
    simp +decide [apiKeyChanged, Fits, hkey]
  | regulatorAccess ip actor read =>
    rw [call, storable_event]
    simp +decide [CryptoExchange.regulatorAccess, Fits, read.accepted_data]
  | regulatorStream actor =>
    rw [call, storable_event]
    simp +decide [CryptoExchange.regulatorStream, CryptoExchange.regulatorAccess, Fits, FitsIp]

end Emit

/-! ## The log -/

/-- **An audited action is in the log**, while the database is up, exactly when what the client sent
fits: when the task of the call has ended, its one row has the event of the call. Every task can
end. -/
theorem audited_iff (sha : List Char → String) {cfg : Config} {emits : List (Emit cfg)}
    {s : AuditWorld × List (Next WritePhase Bool)}
    (h : (auditingUp sha (emits.map Emit.call)).Reach s) {i : ℕ} {x : Emit cfg}
    (hx : emits[i]? = some x) :
    (∀ ok, s.2[i]? = some (.done ok) →
      ((s.1.entries.filter fun y => y.writer = i).map (fun y => y.row.event) = [x.call.event] ↔
        x.Fits)) ∧
    ∃ as s', (auditingUp sha (emits.map Emit.call)).Run s as s' ∧ ∀ t ∈ s'.2, t.isDone := by
  refine ⟨fun ok hi => ?_, auditingUp_ends h⟩
  have hcall : (emits.map Emit.call)[i]? = some x.call := by rw [List.getElem?_map, hx]; rfl
  obtain ⟨hstored, hrefused⟩ := stored_exactly h hcall hi
  rw [← x.storable_iff]
  refine ⟨fun hrow => ?_, hstored⟩
  by_contra hs
  rw [hrefused hs] at hrow
  cases hrow

/-! ## Two failed logins -/

namespace Sample

/-- A step of a task that is alone. -/
theorem oneEmit_step {x : EmitCall} {w w' : AuditWorld} {p : WritePhase} {n : Next WritePhase Bool}
    (a : WriteAnswer) (h : (auditingUp sha [x]).Reach (w, [.await p])) (hC : DatabaseUp [x] w a p)
    (hs : writeStep sha w a p = (w', n)) : (auditingUp sha [x]).Reach (w', [n]) := by
  refine .step (S := auditingUp sha [x]) (0, a) h ⟨fun q hq => ?_, p, rfl, ?_⟩
  · cases hq
    exact hC
  · rw [hs]
    rfl

theorem oneEmit_locked (x : EmitCall) :
    (auditingUp sha [x]).Reach ({ lock := some 0 }, [.await (.selectLatest 0 x.event)]) := by
  have h : (auditingUp sha [x]).Reach ({}, [.await (.acquire 0 x.event)]) := .init ⟨rfl, rfl, rfl⟩
  exact oneEmit_step {} h rfl rfl

theorem oneEmit_written {x : EmitCall} (hx : x.Storable) :
    (auditingUp sha [x]).Reach ({ entries := [oneEntry x.event], nextId := 2 }, [.done true]) := by
  have h := oneEmit_step {} (oneEmit_locked x) rfl rfl
  have h := oneEmit_step {} h ⟨by simpa using hx, rfl⟩ rfl
  exact oneEmit_step {} h rfl rfl

theorem oneEmit_refused {x : EmitCall} (hx : ¬x.Storable) :
    (auditingUp sha [x]).Reach ({}, [.done false]) := by
  have h := oneEmit_step {} (oneEmit_locked x) rfl rfl
  have h := oneEmit_step { fails := true } h ⟨by simpa using hx, rfl⟩ rfl
  exact oneEmit_step {} h rfl rfl

/-- A user name of `n` letters. -/
def loginOf (n : ℕ) (h : 3 ≤ n) : LoginRequest where
  username := String.ofList (List.replicate n 'a')
  password := "hunter2"
  username_min := by rwa [String.length_ofList, List.length_replicate]
  password_min := by decide

theorem loginOf_noNul (n : ℕ) (h : 3 ≤ n) : NoNul (loginOf n h).username := by
  intro hmem
  rw [loginOf, String.toList_ofList] at hmem
  exact absurd (List.eq_of_mem_replicate hmem) (by decide)

/-- A failed login with a user name of `n` letters. -/
def failedLogin (n : ℕ) (h : 3 ≤ n) : Emit config :=
  .loginFailure none (loginOf n h) (loginOf_noNul n h)

theorem failedLogin_fits (n : ℕ) (h : 3 ≤ n) : (failedLogin n h).Fits ↔ n ≤ 64 := by
  simp [failedLogin, Emit.Fits, Emit.FitsIp, loginOf]

end Sample

open Sample in
/-- The result for a failed login with a user name of 64 letters. -/
theorem audited_iff_login :
    ∃ s, (auditingUp sha ([failedLogin 64 (by decide)].map Emit.call)).Reach s ∧
      s.2 = [.done true] ∧
      (s.1.entries.filter fun y => y.writer = 0).map (fun y => y.row.event) =
        [(failedLogin 64 (by decide)).call.event] := by
  have hfits := (failedLogin_fits 64 (by decide)).mpr le_rfl
  have hreach : (auditingUp sha ([failedLogin 64 (by decide)].map Emit.call)).Reach
      ({ entries := [oneEntry (failedLogin 64 (by decide)).call.event], nextId := 2 },
        [.done true]) := oneEmit_written ((Emit.storable_iff _).mpr hfits)
  have hcall : [failedLogin 64 (by decide)][0]? = some (failedLogin 64 (by decide)) := rfl
  exact ⟨_, hreach, rfl, ((audited_iff sha hreach hcall).1 true rfl).mpr hfits⟩

open Sample in
/-- A failed login with a user name of 65 letters: its task ends, and the log is empty. -/
theorem login_not_audited :
    ∃ s, (auditingUp sha [(failedLogin 65 (by decide)).call]).Reach s ∧ s.2 = [.done false] ∧
      s.1.entries = [] := by
  have hfits : ¬(failedLogin 65 (by decide)).Fits := by
    rw [failedLogin_fits]
    decide
  exact ⟨_, oneEmit_refused (mt (Emit.storable_iff _).mp hfits), rfl, rfl⟩

end CryptoExchange
