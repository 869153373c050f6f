import CryptoExchange.Gateway.Routes
import CryptoExchange.Keys.Live
import CryptoExchange.Lib.Sys

/-!
# What the holder of a key can reach

Sequences of requests, each with a key that the holder has: the first key, or one that an earlier
request of the sequence created or regenerated. `POST /api-keys` and
`POST /api-keys/{key_id}/regenerate` have no `require_scopes`, so a key of any scopes can get a key
of other scopes.

* `Portal`: the key table, the ids of the keys held, and the routes whose handlers were reached.
* `Confined`: the condition on a step; it keeps the keys held within the scopes of the first one.
* `scopes_confined`: in runs whose steps meet the condition, no guarded route is reached that the
  first key does not open; `scopes_escalated` is a run of two requests without it.
-/

namespace CryptoExchange

open Lib

structure Portal where
  now : ℤ
  users : List User
  keys : List ApiKey
  /-- The ids of the keys that the holder has. -/
  held : List String
  /-- The routes whose guards let a request pass, newest first. -/
  reached : List Route

inductive PortalAct where
  /-- A request that is matched to the route; `g` is what the handler draws. -/
  | call (request : HttpRequest) (route : Route) (g : Generated)
  /-- The background stamp of a key. -/
  | touchLastUsed (keyId : String)
  | wait (d : ℕ)

namespace Portal

variable (pwd : PwdContext) (decodeAccessToken : ℤ → String → Option Claims)

/-- The handlers that change the key table. -/
def serve (s : Portal) (state : Option RequestState) (g : Generated) : Route → Portal
  | .createApiKey body =>
    match getUserId state with
    | .error _ => s
    | .ok userId =>
      if body.Valid then
        match ApiKeyService.createKey s.keys pwd g userId body.label body.scopes body.expiresAt with
        | .error _ => s
        | .ok (keys, key, _) => { s with keys, held := key.keyId :: s.held }
      else s
  | .deactivateApiKey keyId =>
    match getUserId state with
    | .error _ => s
    | .ok userId =>
      match ApiKeyService.deactivateKey s.keys keyId userId with
      | .error _ => s
      | .ok (keys, _) => { s with keys }
  | .regenerateApiKey keyId =>
    match getUserId state with
    | .error _ => s
    | .ok userId =>
      match ApiKeyService.regenerateKey s.keys pwd g keyId userId with
      | .error _ => s
      | .ok (keys, none) => { s with keys }
      | .ok (keys, some (key, _)) => { s with keys, held := key.keyId :: s.held }
  | _ => s

/-- What `AuthMiddleware` does with the request. -/
def dispatch (s : Portal) (request : HttpRequest) : AuthOutcome :=
  (AuthMiddleware.dispatch (ApiKeyService.authenticateUser s.users s.keys pwd s.now)
    (decodeAccessToken s.now) request).outcome

def handle (s : Portal) (request : HttpRequest) (route : Route) (g : Generated) : Portal :=
  match s.dispatch pwd decodeAccessToken request with
  | .refuse _ _ => s
  | .forward state =>
    match route.guard state with
    | .error _ => s
    | .ok () => { s with reached := route :: s.reached }.serve pwd state g route

/-- The request has the route's method and path, and the id of a key that the holder has. -/
structure Called (s : Portal) (request : HttpRequest) (route : Route) : Prop where
  method : request.method = route.method
  path : request.path = route.path
  given : strip (request.xApiKey.getD "") ≠ ""
  held : strip (request.xApiKey.getD "") ∈ s.held

def step (s : Portal) (a : PortalAct) (s' : Portal) : Prop :=
  match a with
  | .call request route g =>
    s.Called request route ∧ s' = s.handle pwd decodeAccessToken request route g
  | .touchLastUsed keyId =>
    ∃ keys, ApiKeyService.touchLastUsed s.keys s.now keyId = .ok keys ∧ s' = { s with keys }
  | .wait d => s' = { s with now := s.now + d }

/-- The holder starts with one key. -/
def system (key : ApiKey) : Sys where
  St := Portal
  Act := PortalAct
  init s := Keyed ApiKey.keyId s.keys ∧ key ∈ s.keys ∧ s.held = [key.keyId] ∧ s.reached = []
  step := step pwd decodeAccessToken

end Portal

/-- Every scope that some route requires is in `S`. -/
def Within (S scopes : List String) : Prop :=
  ∀ x ∈ scopes, x ∈ S ∨ ∀ r : Route, x ∉ r.requiredScopes

/-- A key is created with no more scopes than the first key has, and a key that is regenerated has
no more. -/
def Confined (key : ApiKey) (s : Portal) : PortalAct → Prop
  | .call _ (.createApiKey body) _ => Within key.scopes body.scopes
  | .call _ (.regenerateApiKey keyId) _ =>
    ∀ k ∈ s.keys, k.keyId = keyId → k.userId = key.userId → Within key.scopes k.scopes
  | _ => True

/-! ## The keys held -/

namespace Portal

variable {pwd : PwdContext} {decodeAccessToken : ℤ → String → Option Claims} {key : ApiKey}

/-- The holder's keys are of the first key's user, and within its scopes. -/
structure Holds (key : ApiKey) (s : Portal) : Prop where
  keyed : Keyed ApiKey.keyId s.keys
  own : ∀ k ∈ s.keys, k.keyId ∈ s.held → k.userId = key.userId ∧ Within key.scopes k.scopes
  reached : ∀ r ∈ s.reached, r.requiredScopes ⊆ key.scopes

/-- An update that keeps the columns in question. -/
theorem Holds.modify {s : Portal} (h : s.Holds key) (id : String) {f : ApiKey → ApiKey}
    (hf : ∀ k, (f k).keyId = k.keyId ∧ (f k).userId = k.userId ∧ (f k).scopes = k.scopes) :
    { s with keys := Lib.modify ApiKey.keyId id f s.keys }.Holds key := by
  refine ⟨h.keyed.modify fun k => (hf k).1, fun k hk hheld => ?_, h.reached⟩
  obtain ⟨j, hj, rfl⟩ := mem_modify.mp hk
  by_cases e : j.keyId = id
  · rw [if_pos e] at hheld ⊢
    obtain ⟨hid, hu, hsc⟩ := hf j
    rw [hu, hsc]
    exact h.own j hj (hid ▸ hheld)
  · rw [if_neg e] at hheld ⊢
    exact h.own j hj hheld

/-- A key comes to be held. -/
theorem Holds.hold {s : Portal} (h : s.Holds key) {id : String}
    (hid : ∀ k ∈ s.keys, k.keyId = id → k.userId = key.userId ∧ Within key.scopes k.scopes) :
    { s with held := id :: s.held }.Holds key := by
  refine ⟨h.keyed, fun k hk hheld => ?_, h.reached⟩
  rcases List.mem_cons.mp hheld with e | hheld
  · exact hid k hk e
  · exact h.own k hk hheld

/-- A key is added and held. -/
theorem Holds.create {s : Portal} (h : s.Holds key) {k : ApiKey}
    (hne : ∀ j ∈ s.keys, j.keyId ≠ k.keyId)
    (hk : k.userId = key.userId ∧ Within key.scopes k.scopes) :
    { s with keys := s.keys ++ [k], held := k.keyId :: s.held }.Holds key := by
  refine ⟨h.keyed.append hne, fun j hj hheld => ?_, h.reached⟩
  rcases List.mem_append.mp hj with hj | hj
  · rcases List.mem_cons.mp hheld with e | hheld
    · exact absurd e (hne j hj)
    · exact h.own j hj hheld
  · rw [List.mem_singleton.mp hj]
    exact hk

/-- The user on the request is the first key's. -/
theorem Holds.userId {s : Portal} (h : s.Holds key) {request : HttpRequest} {route : Route}
    (hc : s.Called request route) {state : Option RequestState}
    (hf : s.dispatch pwd decodeAccessToken request = .forward state) {userId : ℤ}
    (hu : getUserId state = .ok userId) : userId = key.userId := by
  by_cases hp : AuthMiddleware.Protected request
  · obtain ⟨k, user, -, ha, rfl⟩ | ⟨token, c, hk, -⟩ := AuthMiddleware.dispatch_forward hp hf
    · obtain ⟨hm, hid, -⟩ := ApiKeyService.authenticateUser_some h.keyed ha
      rw [← (h.own k hm (hid ▸ hc.held)).1]
      unfold getUserId at hu
      dsimp only at hu
      split at hu
      · cases hu
      · cases hu; rfl
    · exact absurd hk hc.given
  · have hn : state = none := by
      rw [dispatch, AuthMiddleware.dispatch_exempt hp] at hf
      cases hf; rfl
    rw [hn] at hu
    cases hu

/-- A route is reached. -/
theorem Holds.reach {s : Portal} (h : s.Holds key) {request : HttpRequest} {route : Route}
    (hc : s.Called request route) {state : Option RequestState}
    (hf : s.dispatch pwd decodeAccessToken request = .forward state)
    (hg : route.guard state = .ok ()) :
    { s with reached := route :: s.reached }.Holds key := by
  refine ⟨h.keyed, h.own, fun r hr => ?_⟩
  rcases List.mem_cons.mp hr with rfl | hr
  · by_cases hnil : r.requiredScopes = []
    · rw [hnil]
      exact List.nil_subset _
    · obtain ⟨k, user, ha, hsub⟩ := reached_scopes hc.method hc.path hc.given hf hg hnil
      obtain ⟨hm, hid, -⟩ := ApiKeyService.authenticateUser_some h.keyed ha
      intro x hx
      rcases (h.own k hm (hid ▸ hc.held)).2 x (hsub hx) with hS | hno
      · exact hS
      · exact absurd hx (hno r)
  · exact h.reached r hr

theorem Holds.serve {s : Portal} (h : s.Holds key) {state : Option RequestState} {g : Generated}
    {request : HttpRequest} {route : Route} (hC : Confined key s (.call request route g))
    (hu : ∀ userId, getUserId state = .ok userId → userId = key.userId) :
    (s.serve pwd state g route).Holds key := by
  unfold Portal.serve
  split
  · rename_i body
    split
    · exact h
    · rename_i userId he
      split
      · split
        · exact h
        · rename_i keys k secret hcreate
          obtain ⟨hne, hkeys, -, hrow⟩ := ApiKeyService.createKey_ok hcreate
          dsimp only at hne hkeys hrow
          have hid : k.keyId = g.keyId := by rw [hrow]
          subst hkeys
          refine h.create (fun j hj => hid ▸ hne j hj) ?_
          rw [hrow]
          exact ⟨hu _ he, hC⟩
      · exact h
  · split
    · exact h
    · rename_i userId he
      unfold ApiKeyService.deactivateKey
      obtain ⟨k, hk, -, -, hget⟩ | hget := ApiKeyService.getKeyForUser_cases h.keyed _ userId
      · rw [hget]
        exact h.modify _ fun _ => ⟨rfl, rfl, rfl⟩
      · rw [hget]
        exact h
  · rename_i keyId
    split
    · exact h
    · rename_i userId he
      unfold ApiKeyService.regenerateKey
      obtain ⟨k, hk, hid, hku, hget⟩ | hget :=
        ApiKeyService.getKeyForUser_cases h.keyed keyId userId
      · rw [hget]
        have hkey : ∀ j ∈ s.keys, j.keyId = k.keyId →
            j.userId = key.userId ∧ Within key.scopes j.scopes := by
          intro j hj e
          obtain rfl := h.keyed.eq_of_key hj hk e
          have hju := hku.trans (hu _ he)
          exact ⟨hju, hC j hj hid hju⟩
        exact (h.hold hkey).modify _ fun _ => ⟨rfl, rfl, rfl⟩
      · rw [hget]
        exact h
  · exact h

theorem holds_inductive (pwd : PwdContext) (decodeAccessToken : ℤ → String → Option Claims)
    (key : ApiKey) :
    ((system pwd decodeAccessToken key).restrict (Confined key)).Inductive fun s => s.Holds key := by
  refine ⟨fun s => ?_, fun s a s' h => ?_⟩
  · rintro ⟨hk, hm, hheld, hr⟩
    refine ⟨hk, fun k hmk hkh => ?_, by rw [hr]; simp⟩
    rw [hheld, List.mem_singleton] at hkh
    rw [hk.eq_of_key hmk hm hkh]
    exact ⟨rfl, fun x hx => .inl hx⟩
  · rintro ⟨hC, hst⟩
    cases a with
    | call request route g =>
      obtain ⟨hc, rfl⟩ := hst
      unfold Portal.handle
      split
      · exact h
      · rename_i state hf
        split
        · exact h
        · rename_i hg
          have hC' : Confined key { s with reached := route :: s.reached }
              (.call request route g) := by
            revert hC
            cases route <;> exact id
          exact (h.reach hc hf hg).serve hC' fun userId hu => h.userId hc hf hu
    | touchLastUsed keyId =>
      obtain ⟨keys, ht, rfl⟩ := hst
      obtain rfl | ⟨id, rfl⟩ := ApiKeyService.touchLastUsed_ok ht
      · exact h
      · exact h.modify id fun _ => ⟨rfl, rfl, rfl⟩
    | wait d =>
      cases hst
      exact ⟨h.keyed, h.own, h.reached⟩

end Portal

/-- **Scopes without escalation.** While every key is created and regenerated within the scopes of
the first key, each route that is reached requires only scopes of the first key. -/
theorem scopes_confined {pwd : PwdContext} {decodeAccessToken : ℤ → String → Option Claims}
    {key : ApiKey} {s : Portal}
    (h : ((Portal.system pwd decodeAccessToken key).restrict (Confined key)).Reach s) :
    ∀ r ∈ s.reached, r.requiredScopes ⊆ key.scopes :=
  ((Portal.holds_inductive pwd decodeAccessToken key).reach h).reached

namespace PortalSample

open KeySample

def users : List User := [⟨1, "ann", "standard", "trader"⟩]

/-- A key that may only read the market. -/
def readOnly : ApiKey :=
  ⟨"ro", "secret", 1, "dashboard", ["read:market"], true, none, none⟩

def start : Portal := { now := 0, users, keys := [readOnly], held := ["ro"], reached := [] }

/-- A request with a key. -/
def request (route : Route) (keyId secret : String) : HttpRequest :=
  ⟨route.method, route.path, none, some keyId, some secret, none⟩

def drawn : Generated := ⟨"new", "fresh", ""⟩

def create (scopes : List String) : PortalAct :=
  .call (request (.createApiKey { scopes }) "ro" "secret") (.createApiKey { scopes }) drawn

def call (route : Route) : PortalAct :=
  .call (request route "new" "fresh") route drawn

def decode (_ : ℤ) (_ : String) : Option Claims := none

/-- The state after one request for a new key, and one with it. -/
def done (scopes : List String) (route : Route) : Portal :=
  (start.handle plain decode (request (.createApiKey { scopes }) "ro" "secret")
    (.createApiKey { scopes }) drawn).handle plain decode (request route "new" "fresh") route drawn

theorem start_init : (Portal.system plain decode readOnly).init start :=
  ⟨by decide, by decide, rfl, rfl⟩

end PortalSample

open PortalSample KeySample in
/-- A key that may only read the market creates one that may place orders. -/
theorem scopes_escalated :
    ∃ s, (Portal.system plain decode readOnly).Reach s ∧
      ¬∀ r ∈ s.reached, r.requiredScopes ⊆ readOnly.scopes := by
  refine ⟨done ["write:orders"] .createOrder,
    .step (S := Portal.system plain decode readOnly) (call .createOrder)
      (.step (S := Portal.system plain decode readOnly) (create ["write:orders"])
        (.init start_init) ⟨⟨rfl, rfl, ?_, ?_⟩, rfl⟩) ⟨⟨rfl, rfl, ?_, ?_⟩, rfl⟩, ?_⟩
  all_goals decide +kernel

open PortalSample KeySample in
/-- A key that it creates with its own scopes opens the market routes. -/
theorem read_key_confined :
    .getPrice "BTCUSDT" ∈ (done ["read:market"] (.getPrice "BTCUSDT")).reached ∧
      ∀ r ∈ (done ["read:market"] (.getPrice "BTCUSDT")).reached,
        r.requiredScopes ⊆ ["read:market"] := by
  have hin : Within readOnly.scopes ["read:market"] := fun x hx => .inl hx
  refine ⟨by decide +kernel, scopes_confined
    (.step (S := (Portal.system plain decode readOnly).restrict (Confined readOnly))
      (call (.getPrice "BTCUSDT"))
      (.step (S := (Portal.system plain decode readOnly).restrict (Confined readOnly))
        (create ["read:market"]) (.init start_init) ⟨hin, ⟨rfl, rfl, ?_, ?_⟩, rfl⟩)
      ⟨trivial, ⟨rfl, rfl, ?_, ?_⟩, rfl⟩)⟩
  all_goals decide +kernel

end CryptoExchange
