import CryptoExchange.Gateway.Auth

/-!
# Every protected request is mediated

A key, where there is one, decides alone; only a request whose `X-API-Key` is blank gets to its
`Bearer` token.

* `KeyAccepted`, `TokenAccepted`: the two credentials that a protected request can go on with.
* `keyDispatch`, `tokenDispatch`: what `dispatch` does with each; `dispatch_cases`: the four ways it takes.
* `dispatch_key`, `dispatch_token`, `dispatch_counted`, `dispatch_congr`: each part on its own.
* `dispatch_mediates`: all of it.
-/

namespace CryptoExchange

open Lib

namespace AuthMiddleware

/-- `X-API-Key` without the blanks around it. -/
def keyIdOf (r : HttpRequest) : String := strip (r.xApiKey.getD "")

def secretOf (r : HttpRequest) : String := strip (r.xApiSecret.getD "")

variable (authenticate : String → String → Except Failure (Option (ApiKey × Option User)))
  (decodeAccessToken : String → Option Claims)

/-- A key id and a secret that the store accepts. -/
structure KeyAccepted (r : HttpRequest) (k : ApiKey) (user : Option User) : Prop where
  keyId : keyIdOf r ≠ ""
  secret : secretOf r ≠ ""
  authenticated : authenticate (keyIdOf r) (secretOf r) = .ok (some (k, user))

/-- No key id, and a `Bearer` token that decodes. -/
structure TokenAccepted (r : HttpRequest) (c : Claims) : Prop where
  noKey : keyIdOf r = ""
  decoded : ∃ token, r.bearer = some token ∧ token ≠ "" ∧ decodeAccessToken token = some c

variable {authenticate decodeAccessToken} {r r' : HttpRequest}

/-! ## The two halves of `dispatch` -/

/-- What `dispatch` does with a key id. -/
def keyDispatch (authenticate : String → String → Except Failure (Option (ApiKey × Option User)))
    (keyId secret : String) : Dispatched :=
  if secret = "" then refuse 401 "X-API-Secret header required when using X-API-Key"
  else
    match authenticate keyId secret with
    | .error _ => refuse 500 "Authentication service error"
    | .ok none => refuse 401 "Invalid or expired API key"
    | .ok (some (k, user)) => forward (some (keyState k user))

/-- What `dispatch` does without one. -/
def tokenDispatch (decodeAccessToken : String → Option Claims) (bearer : Option String) : Dispatched :=
  match bearer with
  | none => refuse 401 "Missing bearer token"
  | some token =>
    if token = "" then refuse 401 "Missing bearer token"
    else
      match decodeAccessToken token with
      | none => refuse 401 "Invalid token"
      | some c => forward (some (jwtState c))

theorem dispatch_eq (authenticate) (decodeAccessToken) (r : HttpRequest) :
    dispatch authenticate decodeAccessToken r =
      if r.method = "OPTIONS" then forward none
      else if r.path ∈ exemptPaths then forward none
      else if keyIdOf r ≠ "" then keyDispatch authenticate (keyIdOf r) (secretOf r)
      else tokenDispatch decodeAccessToken r.bearer := rfl

/-- A request with a key id goes on with the key or not at all. -/
theorem keyDispatch_cases (hk : keyIdOf r ≠ "") :
    (∃ k user, KeyAccepted authenticate r k user ∧
        keyDispatch authenticate (keyIdOf r) (secretOf r) = forward (some (keyState k user))) ∨
      ((∀ k user, ¬KeyAccepted authenticate r k user) ∧
        ∃ status detail, keyDispatch authenticate (keyIdOf r) (secretOf r) = refuse status detail) := by
  unfold keyDispatch
  by_cases hs : secretOf r = ""
  · rw [if_pos hs]
    exact .inr ⟨fun _ _ h => h.secret hs, _, _, rfl⟩
  rw [if_neg hs]
  cases ha : authenticate (keyIdOf r) (secretOf r) with
  | error e =>
    refine .inr ⟨fun k user h => ?_, _, _, rfl⟩
    cases ha.symm.trans h.authenticated
  | ok found =>
    cases found with
    | none =>
      refine .inr ⟨fun k user h => ?_, _, _, rfl⟩
      cases ha.symm.trans h.authenticated
    | some found =>
      obtain ⟨k, user⟩ := found
      exact .inl ⟨k, user, ⟨hk, hs, ha⟩, rfl⟩

/-- A request without a key id goes on with its token or not at all. -/
theorem tokenDispatch_cases (hk : keyIdOf r = "") :
    (∃ c, TokenAccepted decodeAccessToken r c ∧
        tokenDispatch decodeAccessToken r.bearer = forward (some (jwtState c))) ∨
      ((∀ c, ¬TokenAccepted decodeAccessToken r c) ∧
        ∃ status detail, tokenDispatch decodeAccessToken r.bearer = refuse status detail) := by
  unfold tokenDispatch
  cases hb : r.bearer with
  | none =>
    refine .inr ⟨fun c h => ?_, _, _, rfl⟩
    obtain ⟨token, hb', -⟩ := h.decoded
    cases hb.symm.trans hb'
  | some token =>
    have htoken : ∀ {c}, TokenAccepted decodeAccessToken r c →
        token ≠ "" ∧ decodeAccessToken token = some c := by
      rintro c ⟨-, token', hb', hd⟩
      cases hb.symm.trans hb'
      exact hd
    dsimp only
    by_cases hne : token = ""
    · rw [if_pos hne]
      exact .inr ⟨fun c h => (htoken h).1 hne, _, _, rfl⟩
    rw [if_neg hne]
    cases hd : decodeAccessToken token with
    | none =>
      refine .inr ⟨fun c h => ?_, _, _, rfl⟩
      cases hd.symm.trans (htoken h).2
    | some c => exact .inl ⟨c, ⟨hk, token, hb, hne, hd⟩, rfl⟩

/-- The ways that `dispatch` takes: past an exempt request, on with the key, on with the token, or
not on. -/
theorem dispatch_cases (authenticate) (decodeAccessToken) (r : HttpRequest) :
    (¬Protected r ∧ dispatch authenticate decodeAccessToken r = forward none) ∨
    (Protected r ∧ ∃ k user, KeyAccepted authenticate r k user ∧
      dispatch authenticate decodeAccessToken r = forward (some (keyState k user))) ∨
    (Protected r ∧ ∃ c, TokenAccepted decodeAccessToken r c ∧
      dispatch authenticate decodeAccessToken r = forward (some (jwtState c))) ∨
    (Protected r ∧ (∀ k user, ¬KeyAccepted authenticate r k user) ∧
      (∀ c, ¬TokenAccepted decodeAccessToken r c) ∧
      ∃ status detail, dispatch authenticate decodeAccessToken r = refuse status detail) := by
  by_cases hp : Protected r
  · refine .inr ?_
    rw [dispatch_eq, if_neg hp.1, if_neg hp.2]
    by_cases hk : keyIdOf r = ""
    · rw [if_neg (not_not_intro hk)]
      rcases tokenDispatch_cases hk with ⟨c, h⟩ | ⟨hnone, hr⟩
      · exact .inr (.inl ⟨hp, c, h⟩)
      · exact .inr (.inr ⟨hp, fun _ _ h => h.keyId hk, hnone, hr⟩)
    · rw [if_pos hk]
      rcases keyDispatch_cases hk with ⟨k, user, h⟩ | ⟨hnone, hr⟩
      · exact .inl ⟨hp, k, user, h⟩
      · exact .inr (.inr ⟨hp, hnone, fun _ h => hk h.noKey, hr⟩)
  · exact .inl ⟨hp, dispatch_exempt hp⟩

/-- A protected request with an accepted key goes on with the key. -/
theorem dispatch_key {k : ApiKey} {user : Option User} (hp : Protected r)
    (h : KeyAccepted authenticate r k user) :
    dispatch authenticate decodeAccessToken r = forward (some (keyState k user)) := by
  rw [dispatch_eq, if_neg hp.1, if_neg hp.2, if_pos h.keyId, keyDispatch, if_neg h.secret,
    h.authenticated]

/-- A protected request with an accepted token goes on with the token. -/
theorem dispatch_token {c : Claims} (hp : Protected r) (h : TokenAccepted decodeAccessToken r c) :
    dispatch authenticate decodeAccessToken r = forward (some (jwtState c)) := by
  obtain ⟨token, hb, hne, hd⟩ := h.decoded
  rw [dispatch_eq, if_neg hp.1, if_neg hp.2, if_neg (not_not_intro h.noKey), hb, tokenDispatch,
    if_neg hne, hd]

/-- `dispatch` goes on, or it refuses; `authFailures` counts which. -/
theorem dispatch_counted (authenticate) (decodeAccessToken) (r : HttpRequest) :
    (∀ s, (dispatch authenticate decodeAccessToken r).outcome = .forward s →
      (dispatch authenticate decodeAccessToken r).authFailures = 0) ∧
    ∀ status detail, (dispatch authenticate decodeAccessToken r).outcome = .refuse status detail →
      (dispatch authenticate decodeAccessToken r).authFailures = 1 := by
  have hforward : ∀ s, (∀ s', (forward s).outcome = .forward s' → (forward s).authFailures = 0) ∧
      ∀ status detail, (forward s).outcome = .refuse status detail →
        (forward s).authFailures = 1 :=
    fun _ => ⟨fun _ _ => rfl, fun _ _ h => by cases h⟩
  rcases dispatch_cases authenticate decodeAccessToken r with ⟨-, hd⟩ | ⟨-, k, user, -, hd⟩ |
    ⟨-, c, -, hd⟩ | ⟨-, -, -, status, detail, hd⟩
  · rw [hd]
    exact hforward _
  · rw [hd]
    exact hforward _
  · rw [hd]
    exact hforward _
  · rw [hd]
    exact ⟨fun _ h => (by cases h), fun _ _ _ => rfl⟩

/-- A request goes on exactly when it is exempt or has an accepted credential. -/
theorem dispatch_forwards_iff (authenticate) (decodeAccessToken) (r : HttpRequest) :
    (∃ s, (dispatch authenticate decodeAccessToken r).outcome = .forward s) ↔
      ¬Protected r ∨ (∃ k user, KeyAccepted authenticate r k user) ∨
        ∃ c, TokenAccepted decodeAccessToken r c := by
  constructor
  · rintro ⟨s, h⟩
    rcases dispatch_cases authenticate decodeAccessToken r with ⟨hp, -⟩ | ⟨-, k, user, hk, -⟩ |
      ⟨-, c, hc, -⟩ | ⟨-, -, -, status, detail, hd⟩
    · exact .inl hp
    · exact .inr (.inl ⟨k, user, hk⟩)
    · exact .inr (.inr ⟨c, hc⟩)
    · rw [hd] at h
      cases h
  · intro h
    by_cases hp : Protected r
    · rcases h with hn | ⟨k, user, hk⟩ | ⟨c, hc⟩
      · exact absurd hp hn
      · exact ⟨_, by rw [dispatch_key hp hk]; rfl⟩
      · exact ⟨_, by rw [dispatch_token hp hc]; rfl⟩
    · exact ⟨none, by rw [dispatch_exempt hp]; rfl⟩

/-- With a key id the `Authorization` header is not read. -/
theorem dispatch_congr_key (hm : r'.method = r.method) (hpath : r'.path = r.path)
    (hkey : r'.xApiKey = r.xApiKey) (hsecret : r'.xApiSecret = r.xApiSecret)
    (hk : keyIdOf r ≠ "") :
    dispatch authenticate decodeAccessToken r' = dispatch authenticate decodeAccessToken r := by
  have hid : keyIdOf r' = keyIdOf r := by rw [keyIdOf, keyIdOf, hkey]
  have hs : secretOf r' = secretOf r := by rw [secretOf, secretOf, hsecret]
  rw [dispatch_eq, dispatch_eq, hm, hpath, hid, hs, if_pos hk, if_pos hk]

/-- Without a key id the secret is not read, and a blank `X-API-Key` is as good as none. -/
theorem dispatch_congr_token (hm : r'.method = r.method) (hpath : r'.path = r.path)
    (hauth : r'.authorization = r.authorization) (hk : keyIdOf r = "") (hk' : keyIdOf r' = "") :
    dispatch authenticate decodeAccessToken r' = dispatch authenticate decodeAccessToken r := by
  have hb : r'.bearer = r.bearer := by rw [HttpRequest.bearer, HttpRequest.bearer, hauth]
  rw [dispatch_eq, dispatch_eq, hm, hpath, hb, if_neg (not_not_intro hk),
    if_neg (not_not_intro hk')]

/-- The headers of the other credential are not read. -/
theorem dispatch_congr (hm : r'.method = r.method) (hpath : r'.path = r.path)
    (h : keyIdOf r ≠ "" ∧ r'.xApiKey = r.xApiKey ∧ r'.xApiSecret = r.xApiSecret ∨
      keyIdOf r = "" ∧ keyIdOf r' = "" ∧ r'.authorization = r.authorization) :
    dispatch authenticate decodeAccessToken r' = dispatch authenticate decodeAccessToken r := by
  rcases h with ⟨hk, hkey, hsecret⟩ | ⟨hk, hk', hauth⟩
  · exact dispatch_congr_key hm hpath hkey hsecret hk
  · exact dispatch_congr_token hm hpath hauth hk hk'

/-- **Authentication mediates every protected request.** A request goes on exactly when it needs no
credential or has one that is accepted; then it carries the state of that credential and nothing of
the other headers. Every refusal is counted once, and nothing else is. -/
theorem dispatch_mediates
    (authenticate : String → String → Except Failure (Option (ApiKey × Option User)))
    (decodeAccessToken : String → Option Claims) (r : HttpRequest) :
    ((∃ s, (dispatch authenticate decodeAccessToken r).outcome = .forward s) ↔
      r.method = "OPTIONS" ∨ r.path ∈ exemptPaths ∨
        (∃ k user, KeyAccepted authenticate r k user) ∨
        ∃ c, TokenAccepted decodeAccessToken r c) ∧
    (¬Protected r → (dispatch authenticate decodeAccessToken r).outcome = .forward none) ∧
    (∀ k user, Protected r → KeyAccepted authenticate r k user →
      (dispatch authenticate decodeAccessToken r).outcome = .forward (some (keyState k user))) ∧
    (∀ c, Protected r → TokenAccepted decodeAccessToken r c →
      (dispatch authenticate decodeAccessToken r).outcome = .forward (some (jwtState c))) ∧
    (∀ r', r'.method = r.method → r'.path = r.path →
      (keyIdOf r ≠ "" ∧ r'.xApiKey = r.xApiKey ∧ r'.xApiSecret = r.xApiSecret ∨
        keyIdOf r = "" ∧ keyIdOf r' = "" ∧ r'.authorization = r.authorization) →
      dispatch authenticate decodeAccessToken r' = dispatch authenticate decodeAccessToken r) ∧
    (∀ s, (dispatch authenticate decodeAccessToken r).outcome = .forward s →
      (dispatch authenticate decodeAccessToken r).authFailures = 0) ∧
    ∀ status detail, (dispatch authenticate decodeAccessToken r).outcome = .refuse status detail →
      (dispatch authenticate decodeAccessToken r).authFailures = 1 := by
  have hexempt : ¬Protected r ↔ r.method = "OPTIONS" ∨ r.path ∈ exemptPaths := by
    rw [Protected, not_and_or, not_not, not_not]
  refine ⟨?_, ?_, ?_, ?_, fun r' => dispatch_congr, dispatch_counted authenticate decodeAccessToken r⟩
  · rw [← or_assoc, ← hexempt]
    exact dispatch_forwards_iff authenticate decodeAccessToken r
  · intro hp
    rw [dispatch_exempt hp]
    rfl
  · intro k user hp hk
    rw [dispatch_key hp hk]
    rfl
  · intro c hp hc
    rw [dispatch_token hp hc]
    rfl

end AuthMiddleware

/-! ## A padded key beside a token -/

namespace Sample

def padded : HttpRequest where
  method := "GET"
  path := "/orders"
  client := none
  xApiKey := some " ak_1 "
  xApiSecret := some "secret"
  authorization := some "Bearer other"

def padKey : ApiKey := ⟨"ak_1", "hash", 3, "desk", ["read:orders"], true, none, none⟩

end Sample

open Sample AuthMiddleware in
/-- The key decides, whoever the token belongs to, and the key alone. -/
theorem dispatch_mediates_padded :
    let authenticate (keyId secret : String) : Except Failure (Option (ApiKey × Option User)) :=
      .ok (if keyId = "ak_1" ∧ secret = "secret" then some (padKey, none) else none)
    let decode (_ : String) : Option Claims := some ⟨4, some "admin"⟩
    (dispatch authenticate decode padded).outcome = .forward (some (keyState padKey none)) ∧
      dispatch authenticate decode { padded with authorization := none } =
        dispatch authenticate decode padded := by
  intro authenticate decode
  have hk : KeyAccepted authenticate padded padKey none := by
    refine ⟨?_, ?_, ?_⟩ <;> decide +kernel
  have hp : Protected padded := by decide
  obtain ⟨-, -, hkey, -, hcongr, -⟩ := dispatch_mediates authenticate decode padded
  exact ⟨hkey padKey none hp hk, hcongr _ rfl rfl (.inl ⟨hk.keyId, rfl, rfl⟩)⟩

end CryptoExchange
