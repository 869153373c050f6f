import CryptoExchange.Gateway.RateLimit
import CryptoExchange.Audit.Emits
import CryptoExchange.Keys.Live
import CryptoExchange.Ledger.Seed

/-!
# Where the credentials come from

Logins, the requests with tokens and keys, and the requests that make and change keys, interleaved:
`login` (`app/api/routes/auth.py`), `create_access_token`, `AuthMiddleware`, and the handlers of
`app/api/routes/api_keys.py` up to each of their awaited calls.

* A token is what it says (`SignedToken`); `jwt` reads a text. `Unforged`: a text that reads as a
  token says what the server signed.
* `credentialStep`: the machine of one request. `setUsers` stands for every way in which the table
  of users changes, `touchLastUsed` for the background stamp. The limiter only answers earlier, and
  is left out.
* `Rooted`: every token and every key goes back to a login; `credential_step`: a step keeps it.
* `requests_rooted`: so does every request that `AuthMiddleware` passes on.

Times are microseconds.
-/

namespace CryptoExchange

open Lib

/-! ## The login -/

/-- `login`, from the row that the query found. -/
def login (pwd : PwdContext) (found : Option UserRow) (payload : LoginRequest) : Option UserRow :=
  found.filter fun user => user.passwordHash ≠ "" ∧ pwd.verify payload.password user.passwordHash

/-- `create_access_token`; the clock is read once for `exp` and `signing` later for `iat`. -/
def createAccessToken (expireMinutes : ℤ) (now signing : ℕ) (user : User) : SignedToken where
  claims := ⟨user.id, some user.role⟩
  iat := (now + signing) / 1000000
  exp := ((now + expireMinutes * 60000000) / 1000000).toNat

/-! ## Requests -/

/-- A login that succeeded. -/
structure LoginRecord where
  userId : ℤ
  role : String
  time : ℕ
  deriving DecidableEq

/-- A request that `AuthMiddleware` passed on with a state. -/
structure ForwardRecord where
  request : HttpRequest
  state : RequestState
  time : ℕ
  deriving DecidableEq

/-- A secret that was drawn for a user's key, when it was stored, and for which request. -/
structure SecretRecord where
  keyId : String
  secret : String
  userId : ℤ
  time : ℕ
  request : Option ForwardRecord
  deriving DecidableEq

/-- The tables and the clock, with a record of what happened, newest first. -/
structure Credentials where
  now : ℕ
  users : List UserRow
  keys : List ApiKey := []
  issued : List SignedToken := []
  logins : List LoginRecord := []
  secrets : List SecretRecord := []
  forwarded : List ForwardRecord := []

structure CredentialAnswer where
  /-- The time that passes before the step. -/
  elapsed : ℕ := 0
  /-- The time between the two readings of the clock. -/
  signing : ℕ := 0
  fails : Bool := false
  /-- What `_generate_pair` draws. -/
  draw : Generated := ⟨"", "", ""⟩

inductive CredentialPhase where
  /-- `POST /auth/login`, at its query. -/
  | login (payload : LoginRequest)
  /-- A request at `AuthMiddleware`. -/
  | arrive (r : HttpRequest) (route : Route)
  /-- The dependencies of the route, and the handler up to its first call. -/
  | handle (route : Route) (passed : Option ForwardRecord)
  | insert (passed : Option ForwardRecord) (userId : ℤ) (body : ApiKeyCreate) (draw : Generated)
  | deactivate (k : ApiKey)
  | regenerate (passed : Option ForwardRecord) (k : ApiKey) (draw : Generated)
  /-- The route answers with the status when the row has been read again. -/
  | refresh (status : ℕ)
  | touchLastUsed (keyId : String)
  | setUsers (users : List UserRow)

inductive CredentialReply where
  | answered (status : ℕ)
  /-- The handler of a route that leaves the credentials alone. -/
  | routed
  | failed (e : Failure)

abbrev AfterCredential : Type := Next CredentialPhase CredentialReply

namespace Credentials

variable (w : Credentials)

/-- A request that `AuthMiddleware` passes on. -/
def forward (passed : Option ForwardRecord) : Credentials :=
  { w with forwarded := passed.toList ++ w.forwarded }

/-- `api_key.is_active = False`; a flag that was not set is not written. -/
def deactivateKey (k : ApiKey) : Credentials :=
  if k.isActive then
    { w with keys := modify ApiKey.keyId k.keyId ApiKeyService.deactivated w.keys }
  else w

/-- The columns that `regenerate_key` writes. -/
def regenerateKey (pwd : PwdContext) (passed : Option ForwardRecord) (k : ApiKey)
    (draw : Generated) : Credentials :=
  { w with
    keys := modify ApiKey.keyId k.keyId
      (fun j => { j with keyHash := draw.keyHash pwd, isActive := j.isActive || !k.isActive })
      w.keys
    secrets := ⟨k.keyId, draw.rawSecret, k.userId, w.now, passed⟩ :: w.secrets }

end Credentials

section

variable (pwd : PwdContext) (jwt : Jwt) (expireMinutes : ℤ)

/-- What `AuthMiddleware` does with the request. -/
def Credentials.dispatch (w : Credentials) (fails : Bool) (r : HttpRequest) : AuthOutcome :=
  (AuthMiddleware.dispatch
    (if fails then fun _ _ => .error .database
    else ApiKeyService.authenticateUser (w.users.map UserRow.toUser) w.keys pwd w.now)
    (jwt.decode w.now) r).outcome

/-- A handler that looks a key of the user up first. -/
def withKeyOf (w : Credentials) (fails : Bool) (state : Option RequestState) (keyId : String)
    (next : ApiKey → CredentialPhase) : AfterCredential :=
  match getUserId state with
  | .error e => .done (.failed e)
  | .ok userId =>
    if fails then .done (.failed .database)
    else
      match ApiKeyService.getKeyForUser w.keys keyId userId with
      | .error e => .done (.failed e)
      | .ok none => .done (.failed (.http 404 "API key not found"))
      | .ok (some k) => .await (next k)

/-- The handlers, up to the first call that changes a table. -/
def serveKeys (w : Credentials) (a : CredentialAnswer) (passed : Option ForwardRecord) :
    Route → AfterCredential
  | .createApiKey body =>
    match getUserId (passed.map ForwardRecord.state) with
    | .error e => .done (.failed e)
    | .ok userId =>
      if body.Valid then .await (.insert passed userId body a.draw) else .done (.answered 422)
  | .deactivateApiKey keyId =>
    withKeyOf w a.fails (passed.map ForwardRecord.state) keyId .deactivate
  | .regenerateApiKey keyId =>
    withKeyOf w a.fails (passed.map ForwardRecord.state) keyId fun k => .regenerate passed k a.draw
  | _ => .done .routed

/-- What a request does next, when the time has passed. -/
def credentialAct (w : Credentials) (a : CredentialAnswer) :
    CredentialPhase → Credentials × AfterCredential
  | .login payload =>
    if a.fails then (w, .done (.failed .database))
    else
      match scalarOneOrNone (w.users.filter fun u => u.username = payload.username) with
      | .error e => (w, .done (.failed e))
      | .ok found =>
        match login pwd found payload with
        | none => (w, .done (.failed (.http 401 "Invalid username or password")))
        | some user =>
          ({ w with
              now := w.now + a.signing
              issued := createAccessToken expireMinutes w.now a.signing user.toUser :: w.issued
              logins := ⟨user.id, user.role, w.now⟩ :: w.logins },
            .done (.answered 200))
  | .arrive r route =>
    match w.dispatch pwd jwt a.fails r with
    | .refuse status _ => (w, .done (.answered status))
    | .forward state =>
      let passed := state.map fun state => ⟨r, state, w.now⟩
      (w.forward passed, .await (.handle route passed))
  | .handle route passed =>
    match route.guard (passed.map ForwardRecord.state) with
    | .error e => (w, .done (.failed e))
    | .ok () => (w, serveKeys w a passed route)
  | .insert passed userId body draw =>
    match ApiKeyService.createKey w.keys pwd draw userId body.label body.scopes body.expiresAt with
    | .error e => (w, .done (.failed e))
    | .ok (keys, _) =>
      if a.fails then (w, .done (.failed .database))
      else
        ({ w with keys, secrets := ⟨draw.keyId, draw.rawSecret, userId, w.now, passed⟩ :: w.secrets },
          .await (.refresh 201))
  | .deactivate k =>
    if a.fails then (w, .done (.failed .database)) else (w.deactivateKey k, .await (.refresh 204))
  | .regenerate passed k draw =>
    if a.fails then (w, .done (.failed .database))
    else (w.regenerateKey pwd passed k draw, .await (.refresh 200))
  | .refresh status => (w, .done (if a.fails then .failed .database else .answered status))
  | .touchLastUsed keyId =>
    match ApiKeyService.touchLastUsed w.keys w.now keyId with
    | .error e => (w, .done (.failed e))
    | .ok keys => ({ w with keys }, .done .routed)
  | .setUsers users => ({ w with users }, .done .routed)

def credentialStep (w : Credentials) (a : CredentialAnswer) (p : CredentialPhase) :
    Credentials × AfterCredential :=
  credentialAct pwd jwt expireMinutes { w with now := w.now + a.elapsed } a p

/-- A request that has not begun, or something in the background. -/
def CredentialPhase.Begins : CredentialPhase → Prop
  | .login _ | .arrive .. | .touchLastUsed _ | .setUsers _ => True
  | _ => False

/-- A text that reads as a token says what the server signed. -/
def Unforged (w : Credentials) (_ : CredentialAnswer) : CredentialPhase → Prop
  | .arrive r _ => ∀ token ∈ r.bearer, ∀ t ∈ jwt token, t ∈ w.issued
  | _ => True

/-- Any number of requests, from a database without keys. -/
def credentialSystem : Sys :=
  (interleave (credentialStep pwd jwt expireMinutes) fun w ts =>
    (w.keys = [] ∧ w.issued = [] ∧ w.logins = [] ∧ w.secrets = [] ∧ w.forwarded = []) ∧
    ∀ t ∈ ts, ∃ p : CredentialPhase, t = .await p ∧ p.Begins).restrict (StepMeets (Unforged jwt))

end

/-! ## What stays -/

/-- Records stay, and so do the keys with their users. -/
structure Credentials.Grows (w w' : Credentials) : Prop where
  now : w.now ≤ w'.now
  issued : w.issued ⊆ w'.issued
  logins : w.logins ⊆ w'.logins
  secrets : w.secrets ⊆ w'.secrets
  forwarded : w.forwarded ⊆ w'.forwarded
  keys : ∀ k ∈ w.keys, ∃ k' ∈ w'.keys, k'.keyId = k.keyId ∧ k'.userId = k.userId

theorem Credentials.Grows.refl (w : Credentials) : w.Grows w :=
  ⟨le_rfl, List.Subset.refl _, List.Subset.refl _, List.Subset.refl _, List.Subset.refl _,
    fun k hk => ⟨k, hk, rfl, rfl⟩⟩

theorem Credentials.Grows.trans {w w' w'' : Credentials} (h : w.Grows w') (h' : w'.Grows w'') :
    w.Grows w'' where
  now := h.now.trans h'.now
  issued := List.Subset.trans h.issued h'.issued
  logins := List.Subset.trans h.logins h'.logins
  secrets := List.Subset.trans h.secrets h'.secrets
  forwarded := List.Subset.trans h.forwarded h'.forwarded
  keys k hk := by
    obtain ⟨k', hk', hid, hu⟩ := h.keys k hk
    obtain ⟨k'', hk'', hid', hu'⟩ := h'.keys k' hk'
    exact ⟨k'', hk'', hid'.trans hid, hu'.trans hu⟩

/-- An update of a row that keeps the key's id and user. -/
theorem keys_modify {keyId : String} {f : ApiKey → ApiKey}
    (hf : ∀ j, (f j).keyId = j.keyId ∧ (f j).userId = j.userId) (keys : List ApiKey) :
    ∀ k ∈ keys, ∃ k' ∈ modify ApiKey.keyId keyId f keys,
      k'.keyId = k.keyId ∧ k'.userId = k.userId := by
  intro k hk
  refine ⟨_, mem_modify.mpr ⟨k, hk, rfl⟩, ?_⟩
  split
  · exact hf k
  · exact ⟨rfl, rfl⟩

/-! ## The roots -/

/-- The user had logged in by then. -/
def LoggedIn (w : Credentials) (userId : ℤ) (time : ℕ) : Prop :=
  ∃ l ∈ w.logins, l.userId = userId ∧ l.time ≤ time

/-- The token was issued at a login. -/
def TokenRooted (expireMinutes : ℤ) (w : Credentials) (t : SignedToken) : Prop :=
  ∃ l ∈ w.logins, l.time ≤ w.now ∧ t.claims = ⟨l.userId, some l.role⟩ ∧
    t.exp = ((l.time + expireMinutes * 60000000) / 1000000).toNat

/-- The user asked for it by then: in a request that was passed on as the user's, after a login. -/
def Asked (w : Credentials) (passed : Option ForwardRecord) (userId : ℤ) (time : ℕ) : Prop :=
  ∃ f ∈ passed, f ∈ w.forwarded ∧ f.state.userId = userId ∧ f.time ≤ time ∧
    LoggedIn w userId f.time

/-- The secret was drawn when the user asked for it. -/
def SecretRooted (w : Credentials) (d : SecretRecord) : Prop :=
  d.time ≤ w.now ∧ Asked w d.request d.userId d.time

/-- The hash of the row is one of a secret that was drawn for the key and its user. -/
def KeyRooted (pwd : PwdContext) (w : Credentials) (k : ApiKey) : Prop :=
  ∃ d ∈ w.secrets, d.keyId = k.keyId ∧ d.userId = k.userId ∧
    ∃ salt, k.keyHash = pwd.hash salt d.secret

/-- A request with a token: the user logged in, in the role that the request has, and the token of
that login had not expired. -/
def ByToken (expireMinutes : ℤ) (w : Credentials) (f : ForwardRecord) : Prop :=
  f.state.authMethod = .jwt ∧ ∃ l ∈ w.logins, l.userId = f.state.userId ∧ l.role = f.state.role ∧
    l.time ≤ f.time ∧ (f.time : ℤ) < l.time + expireMinutes * 60000000

/-- A request with a key: the secret that it has was drawn for this key of the user, in a request of
the user after a login. -/
def ByKey (w : Credentials) (f : ForwardRecord) : Prop :=
  f.state.authMethod = .apiKey ∧ ∃ d ∈ w.secrets, d.userId = f.state.userId ∧
    f.state.apiKeyId = some d.keyId ∧ strip (f.request.xApiKey.getD "") = d.keyId ∧
    strip (f.request.xApiSecret.getD "") = d.secret ∧ d.time ≤ f.time ∧
    Asked w d.request d.userId d.time

structure Rooted (pwd : PwdContext) (expireMinutes : ℤ) (w : Credentials) : Prop where
  keyed : Keyed ApiKey.keyId w.keys
  tokens : ∀ t ∈ w.issued, TokenRooted expireMinutes w t
  secrets : ∀ d ∈ w.secrets, SecretRooted w d
  keys : ∀ k ∈ w.keys, KeyRooted pwd w k
  forwarded : ∀ f ∈ w.forwarded, ByToken expireMinutes w f ∨ ByKey w f

/-- What a request has that is under way. -/
def Bearing (w : Credentials) : CredentialPhase → Prop
  | .handle _ passed => ∀ f ∈ passed, Asked w passed f.state.userId w.now
  | .insert passed userId _ _ => Asked w passed userId w.now
  | .regenerate passed k _ => Asked w passed k.userId w.now ∧
    ∃ j ∈ w.keys, j.keyId = k.keyId ∧ j.userId = k.userId
  | _ => True

section

variable {pwd : PwdContext} {jwt : Jwt} {expireMinutes : ℤ} {w w' : Credentials}

theorem LoggedIn.grows {userId : ℤ} {time time' : ℕ} (h : LoggedIn w userId time)
    (hg : w.Grows w') (ht : time ≤ time') : LoggedIn w' userId time' := by
  obtain ⟨l, hl, hu, hle⟩ := h
  exact ⟨l, hg.logins hl, hu, hle.trans ht⟩

theorem Asked.grows {passed : Option ForwardRecord} {userId : ℤ} {time time' : ℕ}
    (h : Asked w passed userId time) (hg : w.Grows w') (ht : time ≤ time') :
    Asked w' passed userId time' := by
  obtain ⟨f, hp, hf, hu, hle, hin⟩ := h
  exact ⟨f, hp, hg.forwarded hf, hu, hle.trans ht, hin.grows hg le_rfl⟩

theorem Asked.loggedIn {passed : Option ForwardRecord} {userId : ℤ} {time : ℕ}
    (h : Asked w passed userId time) : LoggedIn w userId time := by
  obtain ⟨f, -, -, -, hle, hin⟩ := h
  exact hin.grows (.refl w) hle

theorem TokenRooted.grows {t : SignedToken} (h : TokenRooted expireMinutes w t) (hg : w.Grows w') :
    TokenRooted expireMinutes w' t := by
  obtain ⟨l, hl, hle, h⟩ := h
  exact ⟨l, hg.logins hl, hle.trans hg.now, h⟩

theorem KeyRooted.grows {k : ApiKey} (h : KeyRooted pwd w k) (hg : w.Grows w') :
    KeyRooted pwd w' k := by
  obtain ⟨d, hd, h⟩ := h
  exact ⟨d, hg.secrets hd, h⟩

theorem ByToken.grows {f : ForwardRecord} (h : ByToken expireMinutes w f) (hg : w.Grows w') :
    ByToken expireMinutes w' f := by
  obtain ⟨hm, l, hl, h⟩ := h
  exact ⟨hm, l, hg.logins hl, h⟩

theorem ByKey.grows {f : ForwardRecord} (h : ByKey w f) (hg : w.Grows w') : ByKey w' f := by
  obtain ⟨hm, d, hd, hu, hid, hkey, hsecret, ht, hin⟩ := h
  exact ⟨hm, d, hg.secrets hd, hu, hid, hkey, hsecret, ht, hin.grows hg le_rfl⟩

theorem Bearing.grows {p : CredentialPhase} (h : Bearing w p) (hg : w.Grows w') : Bearing w' p := by
  cases p with
  | handle route passed => exact fun f hf => (h f hf).grows hg hg.now
  | insert passed userId body draw => exact Asked.grows h hg hg.now
  | regenerate passed k draw =>
    obtain ⟨hin, j, hj, hid, hu⟩ := h
    obtain ⟨j', hj', hid', hu'⟩ := hg.keys j hj
    exact ⟨hin.grows hg hg.now, j', hj', hid'.trans hid, hu'.trans hu⟩
  | _ => trivial

/-- What is new goes back to a login, and so do the records that were there. -/
theorem Rooted.grows (h : Rooted pwd expireMinutes w) (hg : w.Grows w')
    (hkeyed : Keyed ApiKey.keyId w'.keys)
    (htokens : ∀ t ∈ w'.issued, t ∈ w.issued ∨ TokenRooted expireMinutes w' t)
    (hsecrets : ∀ d ∈ w'.secrets, d ∈ w.secrets ∨ SecretRooted w' d)
    (hkeys : ∀ k ∈ w'.keys, KeyRooted pwd w k ∨ KeyRooted pwd w' k)
    (hforwarded : ∀ f ∈ w'.forwarded, f ∈ w.forwarded ∨ ByToken expireMinutes w' f ∨ ByKey w' f) :
    Rooted pwd expireMinutes w' where
  keyed := hkeyed
  tokens t ht := (htokens t ht).elim (fun h' => (h.tokens t h').grows hg) id
  secrets d hd := (hsecrets d hd).elim
    (fun h' => ⟨(h.secrets d h').1.trans hg.now, (h.secrets d h').2.grows hg le_rfl⟩) id
  keys k hk := (hkeys k hk).elim (fun h' => h'.grows hg) id
  forwarded f hf := (hforwarded f hf).elim
    (fun h' => (h.forwarded f h').imp (fun h => h.grows hg) fun h => h.grows hg) id

/-! ## Steps -/

/-- The clock and the users are no record. -/
theorem Rooted.later (h : Rooted pwd expireMinutes w) (users : List UserRow) (d : ℕ) :
    Rooted pwd expireMinutes { w with now := w.now + d, users } ∧
      w.Grows { w with now := w.now + d, users } := by
  have hg : w.Grows { w with now := w.now + d, users } :=
    ⟨Nat.le_add_right _ _, List.Subset.refl _, List.Subset.refl _, List.Subset.refl _,
      List.Subset.refl _, fun k hk => ⟨k, hk, rfl, rfl⟩⟩
  exact ⟨h.grows hg h.keyed (fun _ => .inl) (fun _ => .inl) (fun k hk => .inl (h.keys k hk))
    fun _ => .inl, hg⟩

/-- Who came in with a key has a secret that was drawn for it. -/
theorem byKey_of_authenticate (h : Rooted pwd expireMinutes w) {r : HttpRequest} {k : ApiKey}
    {user : Option User}
    (ha : ApiKeyService.authenticateUser (w.users.map UserRow.toUser) w.keys pwd w.now
      (strip (r.xApiKey.getD "")) (strip (r.xApiSecret.getD "")) = .ok (some (k, user))) :
    ByKey w ⟨r, AuthMiddleware.keyState k user, w.now⟩ ∧ LoggedIn w k.userId w.now := by
  obtain ⟨hk, hid, -⟩ := ApiKeyService.authenticateUser_some h.keyed ha
  have hauth : ApiKeyService.authenticate w.keys pwd w.now (strip (r.xApiKey.getD ""))
      (strip (r.xApiSecret.getD "")) = .ok (some k) := by
    unfold ApiKeyService.authenticateUser at ha
    cases hres : ApiKeyService.authenticate w.keys pwd w.now (strip (r.xApiKey.getD ""))
        (strip (r.xApiSecret.getD "")) with
    | error e => rw [hres] at ha; cases ha
    | ok found =>
      rw [hres] at ha
      cases found with
      | none => cases ha
      | some k' => cases ha; rfl
  obtain ⟨-, -, -, -, hverify⟩ := (ApiKeyService.authenticate_some h.keyed).mp hauth
  obtain ⟨d, hd, hdk, hdu, salt, hhash⟩ := h.keys k hk
  rw [hhash, pwd.verify_hash, decide_eq_true_eq] at hverify
  obtain ⟨ht, hin⟩ := h.secrets d hd
  refine ⟨⟨rfl, d, hd, hdu, congrArg some hdk.symm, hid.symm.trans hdk.symm, hverify, ht, hin⟩, ?_⟩
  rw [← hdu]
  exact hin.loggedIn.grows (.refl w) ht

/-- Who came in with a token logged in while it was good. -/
theorem byToken_of_decode (h : Rooted pwd expireMinutes w) {r : HttpRequest} {token : String}
    {c : Claims} (hU : ∀ t ∈ jwt token, t ∈ w.issued) (hd : jwt.decode w.now token = some c) :
    ByToken expireMinutes w ⟨r, AuthMiddleware.jwtState c, w.now⟩ ∧ LoggedIn w c.sub w.now := by
  unfold Jwt.decode at hd
  split at hd
  · cases hd
  · rename_i t ht
    split at hd
    · rename_i hgood
      cases hd
      obtain ⟨l, hl, hle, hclaims, hexp⟩ := h.tokens t (hU t ht)
      refine ⟨⟨rfl, l, hl, by rw [hclaims]; rfl, by rw [hclaims]; rfl, hle, ?_⟩, l, hl,
        by rw [hclaims], hle⟩
      have hlt := hgood.2
      rw [hexp] at hlt
      dsimp only
      omega
    · cases hd

/-- What `AuthMiddleware` passes on goes back to a login. -/
theorem arrive_step (h : Rooted pwd expireMinutes w) {fails : Bool} {r : HttpRequest}
    (hU : ∀ token ∈ r.bearer, ∀ t ∈ jwt token, t ∈ w.issued) {state : Option RequestState}
    (hf : w.dispatch pwd jwt fails r = .forward state) {route : Route}
    {passed : Option ForwardRecord} (hp : passed = state.map fun state => ⟨r, state, w.now⟩) :
    Rooted pwd expireMinutes (w.forward passed) ∧ w.Grows (w.forward passed) ∧
      Bearing (w.forward passed) (.handle route passed) := by
  subst hp
  cases state with
  | none => exact ⟨h, .refl w, fun f hf => by cases hf⟩
  | some state =>
    have hg : w.Grows (w.forward (some ⟨r, state, w.now⟩)) :=
      ⟨le_rfl, List.Subset.refl _, List.Subset.refl _, List.Subset.refl _, List.subset_cons_self _ _,
        fun k hk => ⟨k, hk, rfl, rfl⟩⟩
    have hroot : (ByToken expireMinutes w ⟨r, state, w.now⟩ ∨ ByKey w ⟨r, state, w.now⟩) ∧
        LoggedIn w state.userId w.now := by
      have hp : AuthMiddleware.Protected r := by
        by_contra hp
        rw [Credentials.dispatch, AuthMiddleware.dispatch_exempt hp] at hf
        cases hf
      rcases AuthMiddleware.dispatch_forward hp hf with
        ⟨k, user, -, ha, hs⟩ | ⟨token, c, -, hb, hd, hs⟩
      · cases hs
        split at ha
        · cases ha
        · exact ⟨.inr (byKey_of_authenticate h ha).1, (byKey_of_authenticate h ha).2⟩
      · cases hs
        have := byToken_of_decode (r := r) h (hU token hb) hd
        exact ⟨.inl this.1, this.2⟩
    refine ⟨h.grows hg h.keyed (fun _ => .inl) (fun _ => .inl) (fun k hk => .inl (h.keys k hk))
      fun f hm => ?_, hg, fun f hf => ?_⟩
    · rcases List.mem_cons.mp hm with rfl | hm
      · exact .inr (hroot.1.imp (fun h => h.grows hg) fun h => h.grows hg)
      · exact .inl hm
    · cases hf
      exact ⟨_, rfl, List.mem_cons_self, rfl, le_rfl, hroot.2.grows hg le_rfl⟩

/-- A login, with the token that it issues. -/
theorem login_step (h : Rooted pwd expireMinutes w) (user : User) (signing : ℕ)
    (hw : w' = { w with
      now := w.now + signing
      issued := createAccessToken expireMinutes w.now signing user :: w.issued
      logins := ⟨user.id, user.role, w.now⟩ :: w.logins }) :
    Rooted pwd expireMinutes w' ∧ w.Grows w' := by
  have hg : w.Grows w' := by
    subst hw
    exact ⟨Nat.le_add_right _ _, List.subset_cons_self _ _, List.subset_cons_self _ _,
      List.Subset.refl _, List.Subset.refl _, fun k hk => ⟨k, hk, rfl, rfl⟩⟩
  refine ⟨h.grows hg (hw ▸ h.keyed) (fun t ht => ?_) (fun d hd => .inl ?_)
    (fun k hk => .inl (h.keys k ?_)) fun f hf => .inl ?_, hg⟩
  · subst hw
    rcases List.mem_cons.mp ht with rfl | ht
    · exact .inr ⟨_, List.mem_cons_self, Nat.le_add_right _ _, rfl, rfl⟩
    · exact .inl ht
  · subst hw
    exact hd
  · subst hw
    exact hk
  · subst hw
    exact hf

/-- A step that changes keys and draws secrets, and nothing else. -/
theorem keys_step {keys : List ApiKey} (secrets : List SecretRecord)
    (h : Rooted pwd expireMinutes w) (hkeyed : Keyed ApiKey.keyId keys)
    (hgrow : ∀ k ∈ w.keys, ∃ k' ∈ keys, k'.keyId = k.keyId ∧ k'.userId = k.userId)
    (hsecrets : ∀ d ∈ secrets, SecretRooted w d)
    (hkeys : ∀ k ∈ keys, KeyRooted pwd { w with keys, secrets := secrets ++ w.secrets } k) :
    Rooted pwd expireMinutes { w with keys, secrets := secrets ++ w.secrets } ∧
      w.Grows { w with keys, secrets := secrets ++ w.secrets } := by
  have hg : w.Grows { w with keys, secrets := secrets ++ w.secrets } :=
    ⟨le_rfl, List.Subset.refl _, List.Subset.refl _, List.subset_append_right _ _,
      List.Subset.refl _, hgrow⟩
  refine ⟨h.grows hg hkeyed (fun _ => .inl) (fun d hd => ?_) (fun k hk => .inr (hkeys k hk))
    fun _ => .inl, hg⟩
  rcases List.mem_append.mp hd with hd | hd
  · exact .inr ⟨(hsecrets d hd).1, (hsecrets d hd).2.grows hg le_rfl⟩
  · exact .inl hd

/-- An update that keeps the id, the user and the hash. -/
theorem modify_step (h : Rooted pwd expireMinutes w) {keyId : String} {f : ApiKey → ApiKey}
    (hf : ∀ j, (f j).keyId = j.keyId ∧ (f j).userId = j.userId ∧ (f j).keyHash = j.keyHash) :
    Rooted pwd expireMinutes { w with keys := modify ApiKey.keyId keyId f w.keys } ∧
      w.Grows { w with keys := modify ApiKey.keyId keyId f w.keys } := by
  refine keys_step [] h (h.keyed.modify fun j => (hf j).1)
    (keys_modify (fun j => ⟨(hf j).1, (hf j).2.1⟩) _) (fun d hd => by cases hd) fun k hk => ?_
  obtain ⟨j, hj, rfl⟩ := mem_modify.mp hk
  obtain ⟨d, hd, hid, hu, salt, hhash⟩ := h.keys j hj
  refine ⟨d, hd, ?_⟩
  split
  · obtain ⟨hfi, hfu, hfh⟩ := hf j
    exact ⟨hid.trans hfi.symm, hu.trans hfu.symm, salt, hfh.trans hhash⟩
  · exact ⟨hid, hu, salt, hhash⟩

/-- The commit of `create_key`. -/
theorem insert_step (h : Rooted pwd expireMinutes w) {passed : Option ForwardRecord} {userId : ℤ}
    {draw : Generated} {body : ApiKeyCreate} {r : List ApiKey × ApiKey × String}
    (hin : Asked w passed userId w.now)
    (hr : ApiKeyService.createKey w.keys pwd draw userId body.label body.scopes body.expiresAt =
      .ok r) :
    let w' : Credentials :=
      { w with
        keys := r.1
        secrets := ⟨draw.keyId, draw.rawSecret, userId, w.now, passed⟩ :: w.secrets }
    Rooted pwd expireMinutes w' ∧ w.Grows w' := by
  obtain ⟨hnew, hkeys, -, hrow⟩ := ApiKeyService.createKey_ok hr
  refine keys_step [⟨draw.keyId, draw.rawSecret, userId, w.now, passed⟩] h ?_
    (fun k hk => ⟨k, ?_, rfl, rfl⟩) (fun d hd => ?_) fun k hk => ?_
  · rw [hkeys]
    refine h.keyed.append fun k hk => ?_
    rw [hrow]
    exact hnew k hk
  · rw [hkeys]
    exact List.mem_append_left _ hk
  · obtain rfl := List.mem_singleton.mp hd
    exact ⟨le_rfl, hin⟩
  · rw [hkeys] at hk
    rcases List.mem_append.mp hk with hk | hk
    · obtain ⟨d, hd, h⟩ := h.keys k hk
      exact ⟨d, List.mem_cons_of_mem _ hd, h⟩
    · obtain rfl := List.mem_singleton.mp hk
      rw [hrow]
      exact ⟨_, List.mem_cons_self, rfl, rfl, draw.salt, rfl⟩

/-- The commit of `regenerate_key`: the row is still the user's. -/
theorem regenerate_step (h : Rooted pwd expireMinutes w) {passed : Option ForwardRecord} {k : ApiKey}
    {draw : Generated} (hH : Bearing w (.regenerate passed k draw)) :
    Rooted pwd expireMinutes (w.regenerateKey pwd passed k draw) ∧
      w.Grows (w.regenerateKey pwd passed k draw) := by
  obtain ⟨hin, i, hi, hid, hu⟩ := hH
  refine keys_step [⟨k.keyId, draw.rawSecret, k.userId, w.now, passed⟩] h
    (h.keyed.modify fun _ => rfl) ?_ (fun d hd => ?_) fun j' hj' => ?_
  · refine keys_modify (fun j => ?_) w.keys
    exact ⟨rfl, rfl⟩
  · obtain rfl := List.mem_singleton.mp hd
    exact ⟨le_rfl, hin⟩
  · obtain ⟨j, hj, rfl⟩ := mem_modify.mp hj'
    split
    · rename_i hk
      -- the row that is written is the one that the lookup found
      obtain rfl := h.keyed.eq_of_key hj hi (hk.trans hid.symm)
      exact ⟨_, List.mem_cons_self, hk.symm, hu.symm, draw.salt, rfl⟩
    · obtain ⟨d, hd, h⟩ := h.keys j hj
      exact ⟨d, List.mem_cons_of_mem _ hd, h⟩

theorem asked_of_getUserId {passed : Option ForwardRecord} {userId : ℤ}
    (hH : ∀ f ∈ passed, Asked w passed f.state.userId w.now)
    (hu : getUserId (passed.map ForwardRecord.state) = .ok userId) :
    Asked w passed userId w.now := by
  cases passed with
  | none => cases hu
  | some f =>
    simp only [Option.map_some, getUserId] at hu
    split at hu
    · cases hu
    · cases hu
      exact hH f rfl

/-- The lookup of a key of the user. -/
theorem withKeyOf_bearing (h : Rooted pwd expireMinutes w) {fails : Bool}
    {passed : Option ForwardRecord} {keyId : String} {next : ApiKey → CredentialPhase}
    (hH : ∀ f ∈ passed, Asked w passed f.state.userId w.now)
    (hnext : ∀ k ∈ w.keys, Asked w passed k.userId w.now → Bearing w (next k)) :
    ∀ q, withKeyOf w fails (passed.map ForwardRecord.state) keyId next = .await q →
      Bearing w q := by
  intro q hq
  unfold withKeyOf at hq
  split at hq
  · cases hq
  · rename_i userId hu
    split at hq
    · cases hq
    · rcases ApiKeyService.getKeyForUser_cases h.keyed keyId userId with ⟨k, hk, -, hku, hg⟩ | hg
      · rw [hg] at hq
        cases hq
        exact hnext k hk (hku ▸ asked_of_getUserId hH hu)
      · rw [hg] at hq
        cases hq

/-- **One step.** Everything still goes back to a login. -/
theorem credentialAct_step {a : CredentialAnswer} {p : CredentialPhase} {n : AfterCredential}
    (h : Rooted pwd expireMinutes w) (hH : Bearing w p) (hU : Unforged jwt w a p)
    (hs : credentialAct pwd jwt expireMinutes w a p = (w', n)) :
    (Rooted pwd expireMinutes w' ∧ w.Grows w') ∧ ∀ q, n = .await q → Bearing w' q := by
  have done : ∀ {v : Credentials} {r : CredentialReply},
      (Rooted pwd expireMinutes v ∧ w.Grows v) → (v, Next.done r) = (w', n) →
      (Rooted pwd expireMinutes w' ∧ w.Grows w') ∧ ∀ q, n = .await q → Bearing w' q := by
    intro v r hv e
    cases e
    exact ⟨hv, fun q hq => by cases hq⟩
  have refresh : ∀ {v : Credentials} {status : ℕ}, (Rooted pwd expireMinutes v ∧ w.Grows v) →
      (v, Next.await (CredentialPhase.refresh status)) = (w', n) →
      (Rooted pwd expireMinutes w' ∧ w.Grows w') ∧ ∀ q, n = .await q → Bearing w' q := by
    intro v status hv e
    cases e
    refine ⟨hv, fun q hq => ?_⟩
    cases hq
    trivial
  have same : Rooted pwd expireMinutes w ∧ w.Grows w := ⟨h, .refl w⟩
  cases p with
  | login payload =>
    simp only [credentialAct] at hs
    split at hs
    · exact done same hs
    · split at hs
      · exact done same hs
      · split at hs
        · exact done same hs
        · rename_i user _
          exact done (login_step h user.toUser a.signing rfl) hs
  | arrive r route =>
    simp only [credentialAct] at hs
    split at hs
    · exact done same hs
    · rename_i state hf
      cases hs
      obtain ⟨hroot, hg, hin⟩ := arrive_step h hU hf rfl
      refine ⟨⟨hroot, hg⟩, fun q hq => ?_⟩
      cases hq
      exact hin
  | handle route passed =>
    simp only [credentialAct] at hs
    split at hs
    · exact done same hs
    · cases hs
      refine ⟨same, fun q hq => ?_⟩
      unfold serveKeys at hq
      split at hq
      · split at hq
        · cases hq
        · rename_i userId hu
          split at hq
          · cases hq
            exact asked_of_getUserId hH hu
          · cases hq
      · refine withKeyOf_bearing h hH (fun k _ _ => ?_) q hq
        trivial
      · refine withKeyOf_bearing h hH (fun k hk hin => ?_) q hq
        exact ⟨hin, k, hk, rfl, rfl⟩
      · cases hq
  | insert passed userId body draw =>
    simp only [credentialAct] at hs
    split at hs
    · exact done same hs
    · rename_i keys _ hr
      split at hs
      · exact done same hs
      · exact refresh (insert_step h hH hr) hs
  | deactivate k =>
    simp only [credentialAct] at hs
    split at hs
    · exact done same hs
    · refine refresh ?_ hs
      unfold Credentials.deactivateKey
      split
      · exact modify_step h fun j => ⟨rfl, rfl, rfl⟩
      · exact same
  | regenerate passed k draw =>
    simp only [credentialAct] at hs
    split at hs
    · exact done same hs
    · exact refresh (regenerate_step h hH) hs
  | refresh status => exact done same hs
  | touchLastUsed keyId =>
    simp only [credentialAct] at hs
    split at hs
    · exact done same hs
    · rename_i keys hk
      refine done ?_ hs
      rcases ApiKeyService.touchLastUsed_ok hk with rfl | ⟨id, rfl⟩
      · exact same
      · exact modify_step h fun j => ⟨rfl, rfl, rfl⟩
  | setUsers users => exact done (h.later users 0) hs

theorem rooted (pwd : PwdContext) (jwt : Jwt) (expireMinutes : ℤ) :
    (credentialSystem pwd jwt expireMinutes).Inductive fun s =>
      Rooted pwd expireMinutes s.1 ∧ ∀ p, .await p ∈ s.2 → Bearing s.1 p := by
  refine interleave_inductive (fun w ts h => ?_) fun w a p w' n h hH hU hs => ?_
  · obtain ⟨⟨hkeys, hissued, hlogins, hsecrets, hforwarded⟩, hts⟩ := h
    refine ⟨⟨by rw [hkeys]; exact List.nodup_nil, fun t ht => ?_, fun d hd => ?_, fun k hk => ?_,
      fun f hf => ?_⟩, fun p hp => ?_⟩
    · rw [hissued] at ht
      cases ht
    · rw [hsecrets] at hd
      cases hd
    · rw [hkeys] at hk
      cases hk
    · rw [hforwarded] at hf
      cases hf
    · obtain ⟨q, e, hq⟩ := hts _ hp
      cases e
      cases p with
      | handle | insert | regenerate => exact hq.elim
      | _ => trivial
  · obtain ⟨htick, hg⟩ := h.later w.users a.elapsed
    have hU' : Unforged jwt { w with now := w.now + a.elapsed } a p := by
      cases p with
      | arrive => exact hU
      | _ => trivial
    obtain ⟨⟨hroot, hg'⟩, hnext⟩ := credentialAct_step htick (hH.grows hg) hU' hs
    exact ⟨hroot, hnext, fun q hq => hq.grows (hg.trans hg')⟩

/-- **Every request goes back to a login.** However the requests are interleaved, and however the
users change meanwhile: a request that `AuthMiddleware` passed on with a user has a token of a
login of this user, in the role of that login and within the time set for it, or it has a secret
that was drawn for a key of this user, in a request that was itself passed on as the user's, after a
login. The hash of every key that there is is one of such a secret. -/
theorem requests_rooted {s : Credentials × List AfterCredential}
    (h : (credentialSystem pwd jwt expireMinutes).Reach s) :
    (∀ f ∈ s.1.forwarded, ByToken expireMinutes s.1 f ∨ ByKey s.1 f) ∧
      ∀ k ∈ s.1.keys, ∃ d ∈ s.1.secrets, d.keyId = k.keyId ∧ d.userId = k.userId ∧
        (∃ salt, k.keyHash = pwd.hash salt d.secret) ∧ Asked s.1 d.request k.userId d.time := by
  obtain ⟨hroot, -⟩ := (rooted pwd jwt expireMinutes).reach h
  refine ⟨hroot.forwarded, fun k hk => ?_⟩
  obtain ⟨d, hd, hid, hu, hhash⟩ := hroot.keys k hk
  exact ⟨d, hd, hid, hu, hhash, hu ▸ (hroot.secrets d hd).2⟩

end

/-! ## A token, and a key that it made -/

namespace CredentialSample

deriving instance DecidableEq for SignedToken

instance (jwt : Jwt) (w : Credentials) (a : CredentialAnswer) (p : CredentialPhase) :
    Decidable (Unforged jwt w a p) :=
  match p with
  | .arrive r _ =>
    inferInstanceAs (Decidable (∀ token ∈ r.bearer, ∀ t ∈ jwt token, t ∈ w.issued))
  | .login _ | .handle .. | .insert .. | .deactivate _ | .regenerate .. | .refresh _
  | .touchLastUsed _ | .setUsers _ => .isTrue trivial

/-- The one token is that of a login at the start. -/
def jwt : Jwt := fun token =>
  if token = "token" then some (createAccessToken 60 0 0 ⟨1, "ann", "standard", "trader"⟩) else none

def draw : Generated := ⟨"key", "drawn", "salt"⟩

def ann : UserRow := ⟨⟨1, "ann", "standard", "trader"⟩, KeySample.plain.hash "" "password"⟩

/-- The user logs in and makes a key, and comes back with it as an administrator. -/
def start : Credentials × List AfterCredential :=
  ({ now := 0, users := [ann] },
    [.await (.login ⟨"ann", "password", by decide, by decide⟩),
     .await (.arrive ⟨"POST", "/api-keys", none, none, none, some "Bearer token"⟩
       (.createApiKey {})),
     .await (.setUsers [{ ann with role := "admin" }]),
     .await (.arrive ⟨"GET", "/orders", none, some "key", some "drawn", none⟩ .listOpenOrders)])

def schedule : List (ℕ × CredentialAnswer) :=
  [(0, {}), (1, { elapsed := 5 }), (1, { draw }), (1, {}), (2, {}), (3, { elapsed := 7 })]

end CredentialSample

open CredentialSample in
/-- Both requests were passed on, the second in the new role. -/
theorem requests_rooted_key :
    ∃ s, (credentialSystem KeySample.plain jwt 60).Reach s ∧
      s.1.forwarded.map (fun f => (f.state.userId, f.state.role, f.time)) =
        [(1, "admin", 12), (1, "trader", 5)] ∧
      ∀ f ∈ s.1.forwarded, ByToken 60 s.1 f ∨ ByKey s.1 f := by
  have hrun : (schedule.foldlM (exec (credentialStep KeySample.plain jwt 60) (Unforged jwt))
        start).map (fun s => s.1.forwarded.map fun f => (f.state.userId, f.state.role, f.time)) =
      some [(1, "admin", 12), (1, "trader", 5)] := by
    decide +kernel
  obtain ⟨s, hs, hf⟩ := Option.map_eq_some_iff.mp hrun
  have hreach : (credentialSystem KeySample.plain jwt 60).Reach s := by
    refine .foldlM (fun _ _ _ _ h => exec_step h)
      (.init ⟨⟨rfl, rfl, rfl, rfl, rfl⟩, fun t ht => ?_⟩) hs
    simp only [start, List.mem_cons, List.not_mem_nil, or_false] at ht
    rcases ht with rfl | rfl | rfl | rfl <;> exact ⟨_, rfl, trivial⟩
  exact ⟨s, hreach, hf, (requests_rooted hreach).1⟩

end CryptoExchange
