import CryptoExchange.Gateway.Auth

/-!
# The routes

`app/main.py` with its routers: every HTTP route, the path and the method it answers to, and the
guards in front of its handler. A path's parameters are in the route; of the bodies only that of
`POST /api-keys`. The middlewares let the WebSocket routes pass as they are, so these are left out.
-/

namespace CryptoExchange

open Lib

def availableScopes : List String :=
  ["read:market", "read:account", "read:orders", "write:orders", "read:kpi"]

def defaultScopes : List String := ["read:market", "read:account", "read:orders", "write:orders"]

/-- The body of `POST /api-keys`. -/
structure ApiKeyCreate where
  label : String := ""
  scopes : List String := defaultScopes
  expiresAt : Option ℤ := none
  deriving DecidableEq

/-- `validate_scopes`. -/
def ApiKeyCreate.Valid (b : ApiKeyCreate) : Prop := ∀ s ∈ b.scopes, s ∈ availableScopes

instance (b : ApiKeyCreate) : Decidable b.Valid :=
  inferInstanceAs (Decidable (∀ s ∈ b.scopes, s ∈ availableScopes))

inductive Route where
  | getOrderHistory
  | listOpenOrders
  | createOrder
  | cancelOrder (orderId : ℤ)
  | closePosition (symbol : String)
  | getAccountSummary (userId : ℤ)
  | getPositions (userId : ℤ)
  | getMargin (userId : ℤ)
  | setLeverage (userId : ℤ)
  | setMarginType (userId : ℤ)
  | getCandles (symbol : String)
  | getPrice (symbol : String)
  | tickMarket
  | getSystemKpi
  | getTradingKpi
  | getSecurityKpi
  | login
  | listAuditLogs
  | getAuditLog (logId : ℤ)
  | verifyAuditChain
  | listAlerts
  | getAlert (alertId : ℤ)
  | acknowledgeAlert (alertId : ℤ)
  | getOverview
  | listAllPositions
  | getExposureBreakdown
  | getLiquidationHistory
  | listUsers
  | getLedgerSnapshot
  | createApiKey (body : ApiKeyCreate)
  | listApiKeys
  | deactivateApiKey (keyId : String)
  | regenerateApiKey (keyId : String)
  | health
  | metrics
  deriving DecidableEq

namespace Route

def method : Route → String
  | createOrder | cancelOrder _ | closePosition _ | setLeverage _ | setMarginType _ | tickMarket
  | login | acknowledgeAlert _ | createApiKey _ | regenerateApiKey _ => "POST"
  | deactivateApiKey _ => "DELETE"
  | _ => "GET"

def path : Route → String
  | getOrderHistory => "/orders/history"
  | listOpenOrders => "/orders"
  | createOrder => "/orders"
  | cancelOrder id => "/orders/" ++ toString id ++ "/cancel"
  | closePosition symbol => "/orders/close/" ++ symbol
  | getAccountSummary u => "/account/" ++ toString u
  | getPositions u => "/account/" ++ toString u ++ "/positions"
  | getMargin u => "/account/" ++ toString u ++ "/margin"
  | setLeverage u => "/account/" ++ toString u ++ "/leverage"
  | setMarginType u => "/account/" ++ toString u ++ "/margin-type"
  | getCandles symbol => "/market/candles/" ++ symbol
  | getPrice symbol => "/market/price/" ++ symbol
  | tickMarket => "/market/tick"
  | getSystemKpi => "/kpi/system"
  | getTradingKpi => "/kpi/trading"
  | getSecurityKpi => "/kpi/security"
  | login => "/auth/login"
  | listAuditLogs => "/audit/logs"
  | getAuditLog id => "/audit/logs/" ++ toString id
  | verifyAuditChain => "/audit/verify-chain"
  | listAlerts => "/alerts"
  | getAlert id => "/alerts/" ++ toString id
  | acknowledgeAlert id => "/alerts/" ++ toString id ++ "/acknowledge"
  | getOverview => "/regulator/overview"
  | listAllPositions => "/regulator/positions"
  | getExposureBreakdown => "/regulator/exposure"
  | getLiquidationHistory => "/regulator/liquidations"
  | listUsers => "/regulator/users"
  | getLedgerSnapshot => "/regulator/snapshot"
  | createApiKey _ => "/api-keys"
  | listApiKeys => "/api-keys"
  | deactivateApiKey keyId => "/api-keys/" ++ keyId
  | regenerateApiKey keyId => "/api-keys/" ++ keyId ++ "/regenerate"
  | health => "/health"
  | metrics => "/metrics"

/-- The scopes in the route's `require_scopes`. -/
def requiredScopes : Route → List String
  | getOrderHistory | listOpenOrders => ["read:orders"]
  | createOrder | cancelOrder _ | closePosition _ => ["write:orders"]
  | getAccountSummary _ | getPositions _ | getMargin _ => ["read:account"]
  | setLeverage _ | setMarginType _ => ["write:account"]
  | getCandles _ | getPrice _ | tickMarket => ["read:market"]
  | _ => []

/-- The roles in the route's `require_roles`. -/
def allowedRoles : Route → Option (List String)
  | listAuditLogs | getAuditLog _ | verifyAuditChain | listAlerts | getAlert _ | getOverview
  | listAllPositions | getExposureBreakdown | getLiquidationHistory | listUsers
  | getLedgerSnapshot => some ["admin", "regulator"]
  | acknowledgeAlert _ => some ["admin"]
  | _ => none

/-- The dependencies in front of the handler. -/
def guard (r : Route) (state : Option RequestState) : Except Failure Unit :=
  match requireScopes r.requiredScopes state, r.allowedRoles with
  | .error e, _ => .error e
  | .ok (), none => .ok ()
  | .ok (), some roles => requireRoles roles state

theorem guard_ok {r : Route} {state : Option RequestState} (h : r.guard state = .ok ()) :
    requireScopes r.requiredScopes state = .ok () := by
  unfold guard at h
  split at h
  · cases h
  · assumption
  · assumption

/-- How the paths of three routers start. -/
def scopedPrefixes : List (List Char) := [['/', 'o', 'r'], ['/', 'a', 'c'], ['/', 'm', 'a']]

theorem take_append_mem {a b : String} (h : a.toList.take 3 ∈ scopedPrefixes) :
    (a ++ b).toList.take 3 ∈ scopedPrefixes := by
  have hlen : ∀ l ∈ scopedPrefixes, l.length = 3 := by decide
  have ha := hlen _ h
  rw [List.length_take] at ha
  rw [String.toList_append, List.take_append_of_le_length (by omega)]
  exact h

/-- The routes that require a scope are those of the three routers. -/
theorem path_of_scopes {r : Route} (hr : r.requiredScopes ≠ []) :
    r.path.toList.take 3 ∈ scopedPrefixes := by
  cases r
  case getOrderHistory | listOpenOrders | createOrder | tickMarket => decide
  case closePosition | getAccountSummary | getCandles | getPrice =>
    exact take_append_mem (by decide)
  case cancelOrder | getPositions | getMargin | setLeverage | setMarginType =>
    exact take_append_mem (take_append_mem (by decide))
  all_goals exact absurd rfl hr

/-- No route that requires a scope can be called without a credential. -/
theorem protected_of_scopes {r : Route} (hr : r.requiredScopes ≠ []) {req : HttpRequest}
    (hm : req.method = r.method) (hp : req.path = r.path) : AuthMiddleware.Protected req := by
  refine ⟨?_, fun he => ?_⟩
  · rw [hm]
    unfold method
    split <;> decide
  · have hpath := hp ▸ path_of_scopes hr
    have hexempt : ∀ p ∈ AuthMiddleware.exemptPaths,
        p.toList.take 3 ∉ scopedPrefixes := by decide
    exact hexempt req.path he hpath

end Route

/-- A guarded route that a key reaches requires only scopes that the key has. -/
theorem reached_scopes {authenticate : String → String → Except Failure (Option (ApiKey × Option User))}
    {decode : String → Option Claims} {r : Route} {req : HttpRequest} {state : Option RequestState}
    (hm : req.method = r.method) (hp : req.path = r.path)
    (hkey : strip (req.xApiKey.getD "") ≠ "")
    (hf : (AuthMiddleware.dispatch authenticate decode req).outcome = .forward state)
    (hg : r.guard state = .ok ()) (hr : r.requiredScopes ≠ []) :
    ∃ k user, authenticate (strip (req.xApiKey.getD "")) (strip (req.xApiSecret.getD "")) =
      .ok (some (k, user)) ∧ r.requiredScopes ⊆ k.scopes := by
  obtain ⟨k, user, -, ha, rfl⟩ | ⟨token, c, hk, -⟩ :=
    AuthMiddleware.dispatch_forward (Route.protected_of_scopes hr hm hp) hf
  · exact ⟨k, user, ha, (requireScopes_ok rfl).mp (Route.guard_ok hg)⟩
  · exact absurd hk hkey

end CryptoExchange
