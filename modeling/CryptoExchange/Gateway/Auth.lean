import CryptoExchange.Keys.Service

/-!
# Authentication

`app/middleware/auth.py` and the dependencies of `app/api/deps.py` that read what it put on the
request. A request has the three headers that the middlewares read.

* `decode_access_token` is a parameter: the claims of a token that decodes, `none` for a
  `ValueError`. `login` signs `str(user.id)` as the subject, so a decoded subject is an integer.
* `AuthMiddleware.dispatch` is the middleware up to `call_next`. What it awaits, the key store, is
  a parameter; the background stamp of `last_used_at` is a step of its own where it matters.
* The audit events of a refusal are left out, and so is the `jwt_payload` on the request: only
  audit events read it.
-/

namespace CryptoExchange

open Lib

/-- `str.isspace` of one character. -/
def isSpace (c : Char) : Bool :=
  c.toNat ∈ [0x20, 0x85, 0xa0, 0x1680, 0x2028, 0x2029, 0x202f, 0x205f, 0x3000] ∨
    9 ≤ c.toNat ∧ c.toNat ≤ 13 ∨ 28 ≤ c.toNat ∧ c.toNat ≤ 31 ∨
    0x2000 ≤ c.toNat ∧ c.toNat ≤ 0x200a

/-- `str.strip`. -/
def strip (s : String) : String :=
  String.ofList ((s.toList.dropWhile isSpace).reverse.dropWhile isSpace).reverse

structure HttpRequest where
  method : String
  path : String
  client : Option String
  xApiKey : Option String
  xApiSecret : Option String
  authorization : Option String
  deriving DecidableEq

/-- The claims of a token. -/
structure Claims where
  sub : ℤ
  role : Option String
  deriving DecidableEq

inductive AuthMethod where
  | jwt
  | apiKey
  deriving DecidableEq

/-- `request.state`, once the request is authenticated. -/
structure RequestState where
  userId : ℤ
  role : String
  scopes : List String
  apiKeyId : Option String
  authMethod : AuthMethod
  deriving DecidableEq

/-- The token of a `Bearer` header: `startswith`, `removeprefix` and `strip`. -/
def HttpRequest.bearer (r : HttpRequest) : Option String :=
  let header := (r.authorization.getD "").toList
  if "Bearer ".toList.isPrefixOf header then some (strip (String.ofList (header.drop 7))) else none

/-- The middleware passes the request on, with the state it put on it, or it answers. -/
inductive AuthOutcome where
  | forward (state : Option RequestState)
  | refuse (status : ℕ) (detail : String)
  deriving DecidableEq

/-- The state on a request that goes on. -/
def AuthOutcome.state : AuthOutcome → Option RequestState
  | .forward state => state
  | .refuse _ _ => none

/-- What `dispatch` did: the outcome, and the calls of `increment_auth_failure`. -/
structure Dispatched where
  outcome : AuthOutcome
  authFailures : ℕ
  deriving DecidableEq

namespace AuthMiddleware

def exemptPaths : List String :=
  ["/metrics", "/docs", "/openapi.json", "/redoc", "/health", "/auth/login"]

def forward (state : Option RequestState) : Dispatched := ⟨.forward state, 0⟩

def refuse (status : ℕ) (detail : String) : Dispatched := ⟨.refuse status detail, 1⟩

/-- The state of a request with a key. -/
def keyState (k : ApiKey) (user : Option User) : RequestState where
  userId := k.userId
  role := (user.map User.role).getD "trader"
  scopes := k.scopes
  apiKeyId := some k.keyId
  authMethod := .apiKey

def jwtState (c : Claims) : RequestState where
  userId := c.sub
  role := c.role.getD "trader"
  scopes := []
  apiKeyId := none
  authMethod := .jwt

variable (authenticate : String → String → Except Failure (Option (ApiKey × Option User)))
  (decodeAccessToken : String → Option Claims)

def dispatch (r : HttpRequest) : Dispatched :=
  if r.method = "OPTIONS" then forward none
  else if r.path ∈ exemptPaths then forward none
  else
    let keyId := strip (r.xApiKey.getD "")
    if keyId ≠ "" then
      let secret := strip (r.xApiSecret.getD "")
      if secret = "" then refuse 401 "X-API-Secret header required when using X-API-Key"
      else
        match authenticate keyId secret with
        | .error _ => refuse 500 "Authentication service error"
        | .ok none => refuse 401 "Invalid or expired API key"
        | .ok (some (k, user)) => forward (some (keyState k user))
    else
      match r.bearer with
      | none => refuse 401 "Missing bearer token"
      | some token =>
        if token = "" then refuse 401 "Missing bearer token"
        else
          match decodeAccessToken token with
          | none => refuse 401 "Invalid token"
          | some c => forward (some (jwtState c))

/-- The request needs a credential. -/
def Protected (r : HttpRequest) : Prop := r.method ≠ "OPTIONS" ∧ r.path ∉ exemptPaths

instance (r : HttpRequest) : Decidable (Protected r) := inferInstanceAs (Decidable (_ ∧ _))

variable {authenticate decodeAccessToken}

theorem dispatch_exempt {r : HttpRequest} (hp : ¬Protected r) :
    dispatch authenticate decodeAccessToken r = forward none := by
  unfold dispatch
  by_cases hm : r.method = "OPTIONS"
  · rw [if_pos hm]
  · have hpath : r.path ∈ exemptPaths := by
      by_contra h
      exact hp ⟨hm, h⟩
    rw [if_neg hm, if_pos hpath]

/-- A protected request goes on with the state of its key, or without a key with the state of its
token. -/
theorem dispatch_forward {r : HttpRequest} (hp : Protected r) {s : Option RequestState}
    (h : (dispatch authenticate decodeAccessToken r).outcome = .forward s) :
    (∃ k user, strip (r.xApiKey.getD "") ≠ "" ∧
      authenticate (strip (r.xApiKey.getD "")) (strip (r.xApiSecret.getD "")) = .ok (some (k, user)) ∧
      s = some (keyState k user)) ∨
    ∃ token c, strip (r.xApiKey.getD "") = "" ∧ r.bearer = some token ∧
      decodeAccessToken token = some c ∧ s = some (jwtState c) := by
  unfold dispatch at h
  rw [if_neg hp.1, if_neg hp.2] at h
  dsimp only at h
  by_cases hk : strip (r.xApiKey.getD "") = ""
  · rw [if_neg (not_not_intro hk)] at h
    split at h
    · cases h
    · rename_i token hb
      split at h
      · cases h
      · split at h
        · cases h
        · rename_i c hd
          cases h
          exact .inr ⟨token, c, hk, hb, hd, rfl⟩
  · rw [if_pos hk] at h
    split at h
    · cases h
    · split at h
      · cases h
      · cases h
      · rename_i k user ha
        cases h
        exact .inl ⟨k, user, hk, ha, rfl⟩

end AuthMiddleware

/-- `authenticate` with `api_key.user` loaded. -/
def ApiKeyService.authenticateUser (users : List User) (keys : List ApiKey) (pwd : PwdContext)
    (now : ℤ) (keyId rawSecret : String) : Except Failure (Option (ApiKey × Option User)) :=
  (authenticate keys pwd now keyId rawSecret).map fun k =>
    k.map fun k => (k, findRow User.id k.userId users)

theorem ApiKeyService.authenticateUser_some {users : List User} {keys : List ApiKey}
    (hk : Keyed ApiKey.keyId keys) {pwd : PwdContext} {now : ℤ} {keyId secret : String}
    {k : ApiKey} {user : Option User}
    (h : authenticateUser users keys pwd now keyId secret = .ok (some (k, user))) :
    k ∈ keys ∧ k.keyId = keyId ∧ user = findRow User.id k.userId users := by
  unfold authenticateUser at h
  cases ha : authenticate keys pwd now keyId secret with
  | error e => rw [ha] at h; cases h
  | ok k' =>
    rw [ha] at h
    cases k' with
    | none => cases h
    | some k' =>
      cases h
      obtain ⟨hm, hid, -⟩ := (authenticate_some hk).mp ha
      exact ⟨hm, hid, rfl⟩

/-! ## Dependencies of the routes -/

/-- `get_user_id`: `0` counts as missing. -/
def getUserId (state : Option RequestState) : Except Failure ℤ :=
  match state with
  | none => .error (.http 401 "Missing user ID")
  | some s => if s.userId = 0 then .error (.http 401 "Missing user ID") else .ok s.userId

/-- `get_user_role`. -/
def getUserRole (state : Option RequestState) : String := (state.map RequestState.role).getD "trader"

def requireRoles (allowedRoles : List String) (state : Option RequestState) : Except Failure Unit :=
  if getUserRole state ∈ allowedRoles then .ok ()
  else .error (.http 403 ("Role '" ++ getUserRole state ++
    "' is not permitted to access this resource"))

/-- A list of strings as Python prints it; the scopes have no quotes in them. -/
def printList (l : List String) : String :=
  "[" ++ ", ".intercalate (l.map fun s => "'" ++ s ++ "'") ++ "]"

def requireScopes (requiredScopes : List String) (state : Option RequestState) :
    Except Failure Unit :=
  match state with
  | none => .ok ()
  | some s =>
    if s.authMethod = .jwt then .ok ()
    else
      let missing := requiredScopes.filter (· ∉ s.scopes)
      if missing = [] then .ok ()
      else .error (.http 403 ("API key is missing required scope(s): " ++ printList missing))

/-- The guard lets a key pass exactly when the key has every scope. -/
theorem requireScopes_ok {requiredScopes : List String} {s : RequestState}
    (hs : s.authMethod = .apiKey) :
    requireScopes requiredScopes (some s) = .ok () ↔ requiredScopes ⊆ s.scopes := by
  unfold requireScopes
  simp only [hs, reduceCtorEq, if_false]
  constructor
  · intro h
    split at h
    · rename_i hm
      intro x hx
      have := List.filter_eq_nil_iff.mp hm x hx
      simpa using this
    · cases h
  · intro h
    rw [if_pos]
    exact List.filter_eq_nil_iff.mpr fun x hx => by simpa using h hx

end CryptoExchange
