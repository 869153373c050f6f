import CryptoExchange.Gateway.Routes
import CryptoExchange.Lib.Machine
import Mathlib.Logic.Function.Basic

/-!
# The rate limit

`app/middleware/rate_limit.py` in the stack that `app/main.py` builds. The middleware that was
added last runs first, so `RateLimitMiddleware` runs before `AuthMiddleware`: the request has no
user yet, and the principal comes from the bearer token alone. A request with an API key and no
bearer token is not counted.

* A request is a machine that goes through the stack. `INCR` and `EXPIRE` are awaited, and time
  passes before each step.
* `Gate`: the clock, the Redis counters, and which user's requests were passed to a route in which
  minute (that of the limiter's clock).
* `Metered u`: the condition on the steps. `limit_binds`: with it, at most `rate_limit_per_minute`
  requests of `u` get through in a minute, however they are interleaved.
* `CORSMiddleware` only adds headers to what reaches it with a user.

Times are microseconds.
-/

namespace CryptoExchange

open Lib

/-! ## Tokens -/

/-- A signed token: its claims, and `iat` and `exp` in seconds. -/
structure SignedToken where
  claims : Claims
  iat : ℕ
  exp : ℕ

/-- What a text says that is signed with the server's key. -/
abbrev Jwt := String → Option SignedToken

/-- `jwt.decode`: a token is good from `iat` up to `exp`. -/
def Jwt.decode (jwt : Jwt) (now : ℕ) (token : String) : Option Claims :=
  match jwt token with
  | none => none
  | some t => if t.iat * 1000000 ≤ now ∧ now < t.exp * 1000000 then some t.claims else none

/-- A token that is good, and was good at an earlier time if it was issued by then. -/
theorem Jwt.decode_earlier {jwt : Jwt} {t now : ℕ} {token : String} {c : Claims} (ht : t ≤ now)
    (h : jwt.decode now token = some c) (hi : ∀ s ∈ jwt token, s.iat * 1000000 ≤ t) :
    jwt.decode t token = some c := by
  unfold Jwt.decode at h ⊢
  cases hs : jwt token with
  | none => rw [hs] at h; cases h
  | some s =>
    rw [hs] at h
    dsimp only at h ⊢
    have := hi s hs
    split at h
    · rw [if_pos (by omega)]
      exact h
    · cases h

/-! ## Redis -/

structure Counter where
  value : ℕ
  expiry : Option ℕ
  deriving DecidableEq

abbrev Counters := String → Option Counter

/-- The key exists: it has no expiry or has not reached it. -/
def Counter.Live (now : ℕ) (c : Counter) : Prop := ∀ t ∈ c.expiry, now < t

instance (now : ℕ) (c : Counter) : Decidable (c.Live now) :=
  inferInstanceAs (Decidable (∀ t ∈ c.expiry, now < t))

namespace Counters

variable (cs : Counters) (now : ℕ) (key : String)

def find : Option Counter := (cs key).filter fun c => c.Live now

/-- `INCR`: a missing key counts from `0`, and the time to live stays. -/
def incr : ℕ × Counters :=
  let c := (cs.find now key).getD ⟨0, none⟩
  (c.value + 1, Function.update cs key (some { c with value := c.value + 1 }))

/-- `EXPIRE`. -/
def expire (ttl : ℕ) : Counters :=
  match cs.find now key with
  | none => cs
  | some c => Function.update cs key (some { c with expiry := some (now + ttl) })

/-- The value that the key has, or had when it expired. -/
def value : ℕ := ((cs key).map Counter.value).getD 0

/-- No counter of the key has expired. -/
def Current : Prop := ∀ c ∈ cs key, c.Live now

instance : Decidable (cs.Current now key) := inferInstanceAs (Decidable (∀ c ∈ cs key, c.Live now))

variable {cs now key}

theorem incr_fst (h : cs.Current now key) : (cs.incr now key).1 = cs.value key + 1 := by
  unfold incr find value
  cases hc : cs key with
  | none => rfl
  | some c => rw [Option.filter_some, if_pos (decide_eq_true (h c hc))]; rfl

theorem incr_value (key' : String) : (cs.incr now key).2.value key' =
    if key' = key then (cs.incr now key).1 else cs.value key' := by
  unfold incr value
  by_cases h : key' = key
  · subst h
    simp
  · simp [h]

theorem expire_value (ttl : ℕ) (key' : String) :
    (cs.expire now key ttl).value key' = cs.value key' := by
  unfold expire
  split
  · rfl
  · rename_i c hf
    unfold value
    by_cases h : key' = key
    · subst h
      obtain ⟨hc, -⟩ := Option.filter_eq_some_iff.mp hf
      simp [hc]
    · simp [h]

end Counters

/-! ## The stack -/

inductive Middleware where
  | cors
  | auth
  | rateLimit
  | logging
  deriving DecidableEq

/-- The `add_middleware` calls, in their order. -/
def addedMiddleware : List Middleware := [.cors, .auth, .rateLimit, .logging]

/-- The middlewares in the order in which they see a request. -/
def middlewareStack : List Middleware := addedMiddleware.reverse

/-- What the limiter computed for a request: when, and the Redis key if there is a principal. -/
structure Seen where
  time : ℕ
  key : Option String
  deriving DecidableEq

def minuteBucket (time : ℕ) : ℕ := time / 60000000

/-- A request on its way: `rest` are the middlewares in front of it. -/
structure Passing where
  request : HttpRequest
  state : Option RequestState := none
  seen : Option Seen := none
  rest : List Middleware
  deriving DecidableEq

namespace RateLimitMiddleware

def exemptPaths : List String := ["/metrics", "/docs", "/openapi.json", "/redoc", "/health"]

/-- `principal`, when it is truthy. -/
def principal (jwt : Jwt) (state : Option RequestState) (r : HttpRequest) (now : ℕ) :
    Option String :=
  (if r.path = "/auth/login" then some (r.client.getD "anon")
  else
    match state.filter fun s => s.userId ≠ 0 with
    | some s => some (toString s.userId)
    | none =>
      match r.bearer with
      | none => none
      | some token => (jwt.decode now token).map fun c => toString c.sub).filter (· ≠ "")

def redisKey (principal : String) (minute : ℕ) : String :=
  "rl:" ++ principal ++ ":" ++ toString minute

/-- The key that the request is counted under. -/
def countedUnder (jwt : Jwt) (state : Option RequestState) (r : HttpRequest) (now : ℕ) :
    Option String :=
  if r.method = "OPTIONS" then none
  else if r.path ∈ exemptPaths then none
  else (principal jwt state r now).map fun p => redisKey p (minuteBucket now)

end RateLimitMiddleware

/-! ## Requests as machines -/

structure Gate where
  now : ℕ
  counters : Counters
  /-- The user and the minute of each request that a route got, newest first. -/
  forwarded : List (ℤ × ℕ)

/-- What a step is answered. -/
structure GateAnswer where
  /-- The time that passes before it. -/
  elapsed : ℕ := 0
  redisFails : Bool := false
  /-- The key store as it is then. -/
  authenticate : String → String → Except Failure (Option (ApiKey × Option User)) :=
    fun _ _ => .ok none

inductive GatePhase where
  /-- `call_next`. -/
  | enter (p : Passing)
  | incr (p : Passing) (key : String)
  | expire (p : Passing) (key : String) (count : ℕ)

/-- How a request leaves the stack. -/
inductive GateReply where
  | routed
  | answered (status : ℕ)
  deriving DecidableEq

namespace GatePhase

variable (jwt : Jwt) (rateLimitPerMinute : ℤ)

/-- The limiter after the count. -/
def checked (p : Passing) (count : ℕ) : Next GatePhase GateReply :=
  if rateLimitPerMinute < count then .done (.answered 429) else .await (.enter p)

/-- A request that no middleware is in front of any more. -/
def routed (g : Gate) (p : Passing) : Gate :=
  match p.state, p.seen with
  | some s, some seen => { g with forwarded := (s.userId, minuteBucket seen.time) :: g.forwarded }
  | _, _ => g

def step (g : Gate) (a : GateAnswer) (phase : GatePhase) : Gate × Next GatePhase GateReply :=
  let g := { g with now := g.now + a.elapsed }
  match phase with
  | .enter p =>
    match p.rest with
    | [] => (routed g p, .done .routed)
    | .logging :: rest | .cors :: rest => (g, .await (.enter { p with rest }))
    | .rateLimit :: rest =>
      let key := RateLimitMiddleware.countedUnder jwt p.state p.request g.now
      let p := { p with seen := some ⟨g.now, key⟩, rest }
      match key with
      | none => (g, .await (.enter p))
      | some key => (g, .await (.incr p key))
    | .auth :: rest =>
      match (AuthMiddleware.dispatch a.authenticate (jwt.decode g.now) p.request).outcome with
      | .refuse status _ => (g, .done (.answered status))
      | .forward state => (g, .await (.enter { p with state, rest }))
  | .incr p key =>
    if a.redisFails then (g, .await (.enter p))
    else
      let count := (g.counters.incr g.now key).1
      let g := { g with counters := (g.counters.incr g.now key).2 }
      if count = 1 then (g, .await (.expire p key count))
      else (g, checked rateLimitPerMinute p count)
  | .expire p key count =>
    if a.redisFails then (g, .await (.enter p))
    else
      ({ g with counters := g.counters.expire g.now key 61000000 },
        checked rateLimitPerMinute p count)

end GatePhase

/-- The gate before any of the requests. -/
structure GateStart (g : Gate) (ts : List (Next GatePhase GateReply)) : Prop where
  forwarded : g.forwarded = []
  phases : ∀ t ∈ ts, ∃ r, t = .await (.enter { request := r, rest := middlewareStack })

/-- Requests that go through the stack side by side. -/
abbrev gateSystem (jwt : Jwt) (rateLimitPerMinute : ℤ) : Sys :=
  interleave (GatePhase.step jwt rateLimitPerMinute) GateStart

/-! ## The condition -/

section

variable (jwt : Jwt) (u : ℤ) (m : ℕ)

/-- A token that the request carries has been issued. -/
def Issued (now : ℕ) (r : HttpRequest) : Prop :=
  ∀ token ∈ r.bearer, ∀ s ∈ jwt token, s.iat * 1000000 ≤ now

instance (now : ℕ) (r : HttpRequest) : Decidable (Issued jwt now r) :=
  inferInstanceAs (Decidable (∀ token ∈ r.bearer, ∀ s ∈ jwt token, s.iat * 1000000 ≤ now))

/-- The request carries a bearer token of `u`, too, which was good when the limiter saw it. -/
def Accompanied (p : Passing) : Prop :=
  ∃ seen ∈ p.seen, ∃ token ∈ p.request.bearer, ∃ c ∈ jwt.decode seen.time token, c.sub = u

instance (p : Passing) : Decidable (Accompanied jwt u p) :=
  inferInstanceAs (Decidable (∃ seen ∈ p.seen, ∃ token ∈ p.request.bearer,
    ∃ c ∈ jwt.decode seen.time token, c.sub = u))

/-- A request of `u` with an API key is accompanied by a bearer token of `u`; Redis is available,
and the counter of the minute has not expired when it is incremented. -/
def Metered (g : Gate) (a : GateAnswer) : GatePhase → Prop
  | .enter p =>
    (p.rest.head? = some .rateLimit → Issued jwt (g.now + a.elapsed) p.request) ∧
    (p.rest.head? = some .auth →
      ∀ s ∈ (AuthMiddleware.dispatch a.authenticate (jwt.decode (g.now + a.elapsed))
        p.request).outcome.state, s.authMethod = .apiKey → s.userId = u → Accompanied jwt u p)
  | .incr _ key => key = RateLimitMiddleware.redisKey (toString u) m →
    a.redisFails = false ∧ g.counters.Current (g.now + a.elapsed) key
  | .expire _ key _ => key = RateLimitMiddleware.redisKey (toString u) m → a.redisFails = false

instance (g : Gate) (a : GateAnswer) (phase : GatePhase) :
    Decidable (Metered jwt u m g a phase) := by
  cases phase <;> unfold Metered <;> infer_instance

end

/-! ## Where a request is -/

section

variable {jwt : Jwt} {rateLimitPerMinute : ℤ} {u : ℤ} {m : ℕ}

open RateLimitMiddleware

/-- What the limiter saw of a request. -/
structure SawAt (jwt : Jwt) (now : ℕ) (r : HttpRequest) (seen : Seen) : Prop where
  past : seen.time ≤ now
  issued : Issued jwt seen.time r
  key : seen.key = countedUnder jwt none r seen.time

/-- A request between two middlewares, before, in and after the limiter. -/
inductive Stage (jwt : Jwt) (u : ℤ) (now : ℕ) : GatePhase → Prop
  | arriving {r : HttpRequest} {rest : List Middleware}
      (h : rest = middlewareStack ∨ rest = middlewareStack.tail) :
      Stage jwt u now (.enter ⟨r, none, none, rest⟩)
  | counting {r : HttpRequest} {seen : Seen} {key : String} (h : SawAt jwt now r seen)
      (hk : seen.key = some key) : Stage jwt u now (.incr ⟨r, none, some seen, [.auth, .cors]⟩ key)
  | bounding {r : HttpRequest} {seen : Seen} {key : String} {count : ℕ} (h : SawAt jwt now r seen)
      (hk : seen.key = some key) :
      Stage jwt u now (.expire ⟨r, none, some seen, [.auth, .cors]⟩ key count)
  | limited {r : HttpRequest} {seen : Seen} (h : SawAt jwt now r seen) :
      Stage jwt u now (.enter ⟨r, none, some seen, [.auth, .cors]⟩)
  /-- What is forwarded as the user's was counted under the user. -/
  | admitted {r : HttpRequest} {state : Option RequestState} {seen : Seen} {rest : List Middleware}
      (hrest : rest = [.cors] ∨ rest = [])
      (h : ∀ s ∈ state, s.userId = u → seen.key = some (redisKey (toString u)
        (minuteBucket seen.time))) :
      Stage jwt u now (.enter ⟨r, state, some seen, rest⟩)

theorem SawAt.later {now now' : ℕ} {r : HttpRequest} {seen : Seen} (h : SawAt jwt now r seen)
    (hn : now ≤ now') : SawAt jwt now' r seen :=
  ⟨h.past.trans hn, h.issued, h.key⟩

theorem Stage.later {now now' : ℕ} {phase : GatePhase} (h : Stage jwt u now phase)
    (hn : now ≤ now') : Stage jwt u now' phase := by
  cases h with
  | arriving h => exact .arriving h
  | counting h hk => exact .counting (h.later hn) hk
  | bounding h hk => exact .bounding (h.later hn) hk
  | limited h => exact .limited (h.later hn)
  | admitted hrest h => exact .admitted hrest h

theorem toString_ne_empty (n : ℤ) : toString n ≠ "" := by
  intro h
  have hl := congrArg String.toList h
  cases n with
  | ofNat n => exact Nat.repr_ne_empty (String.toList_inj.mp hl)
  | negSucc n =>
    have hn : (toString (Int.negSucc n)).toList = '-' :: (n + 1).repr.toList := by
      simp [toString, Int.repr, String.toList_append]
    rw [hn] at hl
    cases hl

/-- A request with a bearer token of `u` is counted under `u`. -/
theorem countedUnder_bearer {r : HttpRequest} {t : ℕ} (hp : AuthMiddleware.Protected r)
    {token : String} {c : Claims} (hb : r.bearer = some token) (hd : jwt.decode t token = some c) :
    countedUnder jwt none r t = some (redisKey (toString c.sub) (minuteBucket t)) := by
  have hexempt : r.path ∉ exemptPaths := fun h => hp.2 (by
    simp only [exemptPaths, AuthMiddleware.exemptPaths, List.mem_cons, List.not_mem_nil,
      or_false] at h ⊢
    tauto)
  have hlogin : r.path ≠ "/auth/login" := fun h => hp.2 (by simp [AuthMiddleware.exemptPaths, h])
  have hne := toString_ne_empty c.sub
  unfold countedUnder principal
  rw [if_neg hp.1, if_neg hexempt, if_neg hlogin]
  simp only [Option.filter_none, hb, hd, Option.map_some, Option.filter_some, hne, ne_eq,
    not_false_eq_true, decide_true, if_true]

/-- What `AuthMiddleware` forwards as the user's was counted under the user. -/
theorem counted_of_forward {g : Gate} {a : GateAnswer} {r : HttpRequest} {seen : Seen}
    (hs : SawAt jwt (g.now + a.elapsed) r seen)
    (hC : Metered jwt u m g a (.enter ⟨r, none, some seen, [.auth, .cors]⟩))
    {state : Option RequestState}
    (hf : (AuthMiddleware.dispatch a.authenticate (jwt.decode (g.now + a.elapsed)) r).outcome =
      .forward state) :
    ∀ s ∈ state, s.userId = u →
      seen.key = some (redisKey (toString u) (minuteBucket seen.time)) := by
  intro s hm hu
  have hp : AuthMiddleware.Protected r := by
    by_contra hp
    rw [AuthMiddleware.dispatch_exempt hp] at hf
    cases hf
    cases hm
  rw [hs.key]
  obtain ⟨k, user, -, ha, rfl⟩ | ⟨token, c, -, hb, hd, rfl⟩ :=
    AuthMiddleware.dispatch_forward hp hf
  · cases hm
    obtain ⟨seen', hs', token, hb, c, hd, hc⟩ := hC.2 rfl _ (by rw [hf]; exact rfl) rfl hu
    cases hs'
    rw [countedUnder_bearer hp hb hd, hc]
  · cases hm
    have hd' := Jwt.decode_earlier hs.past hd (hs.issued token hb)
    rw [countedUnder_bearer hp hb hd', ← hu]
    rfl

/-- The limiter lets a request pass, or its count was over the limit. -/
theorem checked_cases (rateLimitPerMinute : ℤ) (p : Passing) (count : ℕ) :
    GatePhase.checked rateLimitPerMinute p count = .done (.answered 429) ∨
      (count : ℤ) ≤ rateLimitPerMinute ∧
        GatePhase.checked rateLimitPerMinute p count = .await (.enter p) := by
  unfold GatePhase.checked
  by_cases h : rateLimitPerMinute < count
  · exact .inl (if_pos h)
  · exact .inr ⟨not_lt.mp h, if_neg h⟩

/-- The limiter has a key to count under, or it lets the request pass. -/
theorem step_limiter {g g' : Gate} {a : GateAnswer} {r : HttpRequest} {rest : List Middleware}
    {n : Next GatePhase GateReply} {seen : Seen}
    (hseen : seen = ⟨g.now + a.elapsed, countedUnder jwt none r (g.now + a.elapsed)⟩)
    (h : GatePhase.step jwt rateLimitPerMinute g a (.enter ⟨r, none, none, .rateLimit :: rest⟩) =
      (g', n)) :
    g' = { g with now := g.now + a.elapsed } ∧
      (seen.key = none ∧ n = .await (.enter ⟨r, none, some seen, rest⟩) ∨
        ∃ key, seen.key = some key ∧ n = .await (.incr ⟨r, none, some seen, rest⟩ key)) := by
  subst hseen
  unfold GatePhase.step at h
  dsimp only at h
  split at h
  · rename_i hk
    cases h
    exact ⟨rfl, .inl ⟨hk, rfl⟩⟩
  · rename_i key hk
    cases h
    exact ⟨rfl, .inr ⟨key, hk, rfl⟩⟩

/-- `INCR` fails, and the request passes, or it counts. -/
theorem step_incr {g g' : Gate} {a : GateAnswer} {p : Passing} {key : String}
    {n : Next GatePhase GateReply}
    (h : GatePhase.step jwt rateLimitPerMinute g a (.incr p key) = (g', n)) :
    a.redisFails = true ∧ g' = { g with now := g.now + a.elapsed } ∧ n = .await (.enter p) ∨
      g' = ⟨g.now + a.elapsed, (g.counters.incr (g.now + a.elapsed) key).2, g.forwarded⟩ ∧
        (n = .await (.expire p key (g.counters.incr (g.now + a.elapsed) key).1) ∨
          n = GatePhase.checked rateLimitPerMinute p
            (g.counters.incr (g.now + a.elapsed) key).1) := by
  unfold GatePhase.step at h
  dsimp only at h
  split at h
  · rename_i hfails
    cases h
    exact .inl ⟨hfails, rfl, rfl⟩
  · split at h
    · cases h
      exact .inr ⟨rfl, .inl rfl⟩
    · cases h
      exact .inr ⟨rfl, .inr rfl⟩

/-- `EXPIRE` fails, and the request passes, or the count is checked. -/
theorem step_expire {g g' : Gate} {a : GateAnswer} {p : Passing} {key : String} {count : ℕ}
    {n : Next GatePhase GateReply}
    (h : GatePhase.step jwt rateLimitPerMinute g a (.expire p key count) = (g', n)) :
    a.redisFails = true ∧ g' = { g with now := g.now + a.elapsed } ∧ n = .await (.enter p) ∨
      g' = ⟨g.now + a.elapsed, g.counters.expire (g.now + a.elapsed) key 61000000, g.forwarded⟩ ∧
        n = GatePhase.checked rateLimitPerMinute p count := by
  unfold GatePhase.step at h
  dsimp only at h
  split at h
  · rename_i hfails
    cases h
    exact .inl ⟨hfails, rfl, rfl⟩
  · cases h
    exact .inr ⟨rfl, rfl⟩

/-- `AuthMiddleware` answers the request or forwards it with a state. -/
theorem step_auth {g g' : Gate} {a : GateAnswer} {r : HttpRequest} {seen : Option Seen}
    {state : Option RequestState} {rest : List Middleware} {n : Next GatePhase GateReply}
    (h : GatePhase.step jwt rateLimitPerMinute g a (.enter ⟨r, state, seen, .auth :: rest⟩) =
      (g', n)) :
    g' = { g with now := g.now + a.elapsed } ∧
      ((∃ status, n = .done (.answered status)) ∨
        ∃ forwarded, (AuthMiddleware.dispatch a.authenticate (jwt.decode (g.now + a.elapsed))
            r).outcome = .forward forwarded ∧
          n = .await (.enter ⟨r, forwarded, seen, rest⟩)) := by
  unfold GatePhase.step at h
  dsimp only at h
  split at h
  · cases h
    exact ⟨rfl, .inl ⟨_, rfl⟩⟩
  · rename_i forwarded hf
    cases h
    exact ⟨rfl, .inr ⟨forwarded, hf, rfl⟩⟩

theorem checked_stage {now : ℕ} {r : HttpRequest} {seen : Seen} {count : ℕ} {phase : GatePhase}
    (h : SawAt jwt now r seen)
    (hn : GatePhase.checked rateLimitPerMinute ⟨r, none, some seen, [.auth, .cors]⟩ count =
      .await phase) : Stage jwt u now phase := by
  obtain hc | ⟨-, hc⟩ := checked_cases rateLimitPerMinute ⟨r, none, some seen, [.auth, .cors]⟩ count
  · rw [hc] at hn
    cases hn
  · rw [hc] at hn
    cases hn
    exact .limited h

theorem routed_now (g : Gate) (p : Passing) : (GatePhase.routed g p).now = g.now := by
  unfold GatePhase.routed
  split <;> rfl

theorem step_now {g g' : Gate} {a : GateAnswer} {phase : GatePhase} {n : Next GatePhase GateReply}
    (h : GatePhase.step jwt rateLimitPerMinute g a phase = (g', n)) :
    g'.now = g.now + a.elapsed := by
  unfold GatePhase.step at h
  dsimp only at h
  split at h
  · split at h
    case h_1 => cases h; exact routed_now _ _
    case h_4 => split at h <;> (cases h; rfl)
    case h_5 => split at h <;> (cases h; rfl)
    all_goals cases h; rfl
  · split at h
    · cases h; rfl
    · split at h <;> (cases h; rfl)
  · split at h <;> (cases h; rfl)

/-- A request moves on through the stack. -/
theorem step_stage {g g' : Gate} {a : GateAnswer} {phase phase' : GatePhase}
    (hT : Stage jwt u (g.now + a.elapsed) phase) (hC : Metered jwt u m g a phase)
    (h : GatePhase.step jwt rateLimitPerMinute g a phase = (g', .await phase')) :
    Stage jwt u (g.now + a.elapsed) phase' := by
  cases hT with
  | @arriving r rest hrest =>
    rcases hrest with rfl | rfl
    · cases h
      exact .arriving (.inr rfl)
    · have hsaw : SawAt jwt (g.now + a.elapsed) r
          ⟨g.now + a.elapsed, countedUnder jwt none r (g.now + a.elapsed)⟩ :=
        ⟨le_rfl, hC.1 rfl, rfl⟩
      rcases (step_limiter rfl h).2 with ⟨-, hn⟩ | ⟨key, hk, hn⟩
      · cases hn
        exact .limited hsaw
      · cases hn
        exact .counting hsaw hk
  | counting hs hk =>
    rcases step_incr h with ⟨-, -, hn⟩ | ⟨-, hn | hn⟩
    · cases hn
      exact .limited hs
    · cases hn
      exact .bounding hs hk
    · exact checked_stage hs hn.symm
  | bounding hs hk =>
    rcases step_expire h with ⟨-, -, hn⟩ | ⟨-, hn⟩
    · cases hn
      exact .limited hs
    · exact checked_stage hs hn.symm
  | limited hs =>
    rcases (step_auth h).2 with ⟨status, hn⟩ | ⟨state, hf, hn⟩
    · cases hn
    · cases hn
      exact .admitted (.inl rfl) (counted_of_forward hs hC hf)
  | admitted hrest hs =>
    rcases hrest with rfl | rfl
    · cases h
      exact .admitted (.inr rfl) hs
    · cases h

theorem stage_inductive (jwt : Jwt) (rateLimitPerMinute : ℤ) (u : ℤ) (m : ℕ) :
    ((gateSystem jwt rateLimitPerMinute).restrict (StepMeets (Metered jwt u m))).Inductive
      fun s => True ∧ ∀ phase, .await phase ∈ s.2 → Stage jwt u s.1.now phase := by
  refine interleave_inductive (G := fun _ => True) (T := fun (g : Gate) phase => Stage jwt u g.now phase)
    (fun g ts h => ⟨trivial, fun phase hp => ?_⟩)
    fun g a phase g' n _ hT hC hstep => ⟨trivial, ?_⟩
  · obtain ⟨r, hr⟩ := h.phases _ hp
    cases hr
    exact .arriving (.inl rfl)
  · rw [step_now hstep]
    refine ⟨fun phase' hn => ?_, fun q hq => hq.later (Nat.le_add_right _ _)⟩
    subst hn
    exact step_stage (hT.later (Nat.le_add_right _ _)) hC hstep

/-! ## Permits -/

/-- A request has a permit from the count under `key` up to its end: the limiter let it pass. -/
def permits (rateLimitPerMinute : ℤ) (key : String) : Next GatePhase GateReply → ℕ
  | .await (.enter p) => if p.seen.bind Seen.key = some key then 1 else 0
  | .await (.expire _ key' count) => if key' = key ∧ (count : ℤ) ≤ rateLimitPerMinute then 1 else 0
  | _ => 0

/-- So many permits may have been given. -/
def permitted (rateLimitPerMinute : ℤ) (key : String) (g : Gate) : ℕ :=
  min (g.counters.value key) rateLimitPerMinute.toNat

theorem permits_enter {p : Passing} {seen : Seen} {key key' : String} (hs : p.seen = some seen)
    (hk : seen.key = some key) : permits rateLimitPerMinute key' (.await (.enter p)) =
      if key = key' then 1 else 0 := by
  simp [permits, hs, hk]

theorem permits_checked {r : HttpRequest} {seen : Seen} {count : ℕ} {key key' : String}
    (hk : seen.key = some key) :
    permits rateLimitPerMinute key' (GatePhase.checked rateLimitPerMinute
      ⟨r, none, some seen, [.auth, .cors]⟩ count) =
    if key = key' ∧ (count : ℤ) ≤ rateLimitPerMinute then 1 else 0 := by
  unfold GatePhase.checked
  by_cases h : rateLimitPerMinute < count
  · rw [if_pos h, if_neg fun hkey => absurd h (not_lt.mpr hkey.2)]
    rfl
  · rw [if_neg h]
    simp [permits, hk, not_lt.mp h]

/-- Nothing is forwarded and no counter moves: no permit may come up. -/
theorem counts_of_eq {g g' : Gate} {key : String} {t n : Next GatePhase GateReply}
    (hf : g'.forwarded = g.forwarded) (hv : g'.counters.value key = g.counters.value key)
    (hp : permits rateLimitPerMinute key n ≤ permits rateLimitPerMinute key t) :
    g'.forwarded.count (u, m) + permits rateLimitPerMinute key n +
        permitted rateLimitPerMinute key g ≤
      permitted rateLimitPerMinute key g' + g.forwarded.count (u, m) +
        permits rateLimitPerMinute key t := by
  unfold permitted
  rw [hf, hv]
  omega

/-- A permit is given with an increment of its own counter only. -/
theorem counts_of_incr {g : Gate} {key key' : String} {now : ℕ} {t n : Next GatePhase GateReply}
    (hcur : key = key' → g.counters.Current now key)
    (hn : permits rateLimitPerMinute key' n =
      if key = key' ∧ ((g.counters.incr now key).1 : ℤ) ≤ rateLimitPerMinute then 1 else 0) :
    g.forwarded.count (u, m) + permits rateLimitPerMinute key' n +
        permitted rateLimitPerMinute key' g ≤
      permitted rateLimitPerMinute key' ⟨now, (g.counters.incr now key).2, g.forwarded⟩ +
        g.forwarded.count (u, m) + permits rateLimitPerMinute key' t := by
  rw [hn]
  unfold permitted
  dsimp only
  rw [Counters.incr_value]
  by_cases e : key = key'
  · rw [← e, if_pos rfl, Counters.incr_fst (hcur e)]
    split <;> omega
  · rw [if_neg (Ne.symm e), if_neg fun h => e h.1]
    omega

/-- A request of `u` that is forwarded in the minute `m` had a permit, and has none any more. -/
theorem counts_of_routed {g : Gate} {r : HttpRequest} {s : RequestState} {seen : Seen} {now : ℕ}
    (hs : s.userId = u → seen.key = some (redisKey (toString u) (minuteBucket seen.time))) :
    (GatePhase.routed ⟨now, g.counters, g.forwarded⟩ ⟨r, some s, some seen, []⟩).forwarded.count
          (u, m) + permits rateLimitPerMinute (redisKey (toString u) m) (.done .routed) +
        permitted rateLimitPerMinute (redisKey (toString u) m) g ≤
      permitted rateLimitPerMinute (redisKey (toString u) m)
          (GatePhase.routed ⟨now, g.counters, g.forwarded⟩ ⟨r, some s, some seen, []⟩) +
        g.forwarded.count (u, m) +
        permits rateLimitPerMinute (redisKey (toString u) m)
          (.await (.enter ⟨r, some s, some seen, []⟩)) := by
  by_cases e : s.userId = u ∧ minuteBucket seen.time = m
  · obtain ⟨hu, rfl⟩ := e
    have hp : permits rateLimitPerMinute (redisKey (toString u) (minuteBucket seen.time))
        (.await (.enter ⟨r, some s, some seen, []⟩)) = 1 := by
      rw [permits_enter rfl (hs hu), if_pos rfl]
    rw [hp, ← hu]
    simp only [GatePhase.routed, permitted, permits, List.count_cons_self]
    omega
  · have hne : (s.userId, minuteBucket seen.time) ≠ (u, m) := fun h => by
      cases h
      exact e ⟨rfl, rfl⟩
    simp only [GatePhase.routed, permitted, permits, List.count_cons_of_ne hne]
    omega

/-- A permit comes from the counter, and a forwarded request gives one up. -/
theorem step_counts {g g' : Gate} {a : GateAnswer} {phase : GatePhase}
    {n : Next GatePhase GateReply} (hT : Stage jwt u g.now phase) (hC : Metered jwt u m g a phase)
    (h : GatePhase.step jwt rateLimitPerMinute g a phase = (g', n)) :
    g'.forwarded.count (u, m) + permits rateLimitPerMinute (redisKey (toString u) m) n +
        permitted rateLimitPerMinute (redisKey (toString u) m) g ≤
      permitted rateLimitPerMinute (redisKey (toString u) m) g' + g.forwarded.count (u, m) +
        permits rateLimitPerMinute (redisKey (toString u) m) (.await phase) := by
  cases hT with
  | @arriving r rest hrest =>
    rcases hrest with rfl | rfl
    · cases h
      exact counts_of_eq rfl rfl le_rfl
    · obtain ⟨rfl, ⟨hk, rfl⟩ | ⟨key, -, rfl⟩⟩ := step_limiter rfl h
      · dsimp only at hk
        exact counts_of_eq rfl rfl (by simp [permits, hk])
      · exact counts_of_eq rfl rfl (Nat.zero_le _)
  | @counting r seen key hs hk =>
    rcases step_incr h with ⟨hfails, rfl, rfl⟩ | ⟨rfl, hn⟩
    · have hne : key ≠ redisKey (toString u) m := fun e => by
        rw [(hC e).1] at hfails
        cases hfails
      exact counts_of_eq rfl rfl (by rw [permits_enter rfl hk, if_neg hne]; exact Nat.zero_le _)
    · refine counts_of_incr (fun e => (hC e).2) ?_
      rcases hn with rfl | rfl
      · rfl
      · exact permits_checked hk
  | @bounding r seen key count hs hk =>
    rcases step_expire h with ⟨hfails, rfl, rfl⟩ | ⟨rfl, rfl⟩
    · have hne : key ≠ redisKey (toString u) m := fun e => by
        rw [hC e] at hfails
        cases hfails
      exact counts_of_eq rfl rfl (by rw [permits_enter rfl hk, if_neg hne]; exact Nat.zero_le _)
    · refine counts_of_eq rfl (Counters.expire_value _ _) ?_
      rw [permits_checked hk]
      exact le_rfl
  | limited hs =>
    obtain ⟨rfl, ⟨status, rfl⟩ | ⟨state, -, rfl⟩⟩ := step_auth h
    · exact counts_of_eq rfl rfl (Nat.zero_le _)
    · exact counts_of_eq rfl rfl le_rfl
  | @admitted r state seen rest hrest hs =>
    rcases hrest with rfl | rfl
    · cases h
      exact counts_of_eq rfl rfl le_rfl
    · cases state with
      | none =>
        cases h
        exact counts_of_eq rfl rfl (Nat.zero_le _)
      | some s =>
        cases h
        exact counts_of_routed (hs s rfl)

end

/-- **The rate limit binds.** While each request of `u` with an API key carries a bearer token of
`u`, too, Redis is available and the counter of the minute outlives its increments: at most
`rate_limit_per_minute` requests of `u` are forwarded to a route in a minute. -/
theorem limit_binds {jwt : Jwt} {rateLimitPerMinute : ℤ} (u : ℤ) (m : ℕ)
    {s : Gate × List (Next GatePhase GateReply)}
    (h : ((gateSystem jwt rateLimitPerMinute).restrict (StepMeets (Metered jwt u m))).Reach s) :
    s.1.forwarded.count (u, m) ≤ rateLimitPerMinute.toNat := by
  have hI := interleave_counted (fun g => g.forwarded.count (u, m))
    (permitted rateLimitPerMinute (RateLimitMiddleware.redisKey (toString u) m))
    (permits rateLimitPerMinute (RateLimitMiddleware.redisKey (toString u) m))
    (stage_inductive jwt rateLimitPerMinute u m) (fun g ts hs => ?_)
    fun s hs i a phase hp hC => step_counts (hs.2 phase (List.mem_of_getElem? hp)) hC rfl
  · exact (Nat.le_add_right _ _).trans ((hI.reach h).2.trans (min_le_right _ _))
  · have hnone : ∀ t ∈ ts, permits rateLimitPerMinute
        (RateLimitMiddleware.redisKey (toString u) m) t = 0 := by
      intro t ht
      obtain ⟨r, rfl⟩ := hs.phases t ht
      rfl
    rw [hs.forwarded, List.sum_eq_zero (by simpa using hnone)]
    exact Nat.zero_le _

namespace GateSample

/-- One token of the user 1. -/
def jwt : Jwt := fun token => if token = "token" then some ⟨⟨1, some "trader"⟩, 0, 900⟩ else none

/-- One key of the user 1. -/
def keyStore (keyId secret : String) : Except Failure (Option (ApiKey × Option User)) :=
  .ok (if keyId = "key" ∧ secret = "secret" then
    some (⟨"key", "", 1, "bot", defaultScopes, true, none, none⟩, some ⟨1, "ann", "standard", "trader"⟩)
  else none)

def withToken : HttpRequest := ⟨"GET", "/orders", none, none, none, some "Bearer token"⟩

def withKey : HttpRequest := ⟨"GET", "/orders", none, some "key", some "secret", none⟩

def start : Gate := ⟨0, fun _ => none, []⟩

def arrive (r : HttpRequest) : Next GatePhase GateReply :=
  .await (.enter { request := r, rest := middlewareStack })

def answer : GateAnswer := { elapsed := 1, authenticate := keyStore }

/-- `n` steps of the `i`th request. -/
def steps (i n : ℕ) : List (ℕ × GateAnswer) := List.replicate n (i, answer)

theorem start_gate (limit : ℤ) (rs : List HttpRequest) :
    (gateSystem jwt limit).init (start, rs.map arrive) :=
  ⟨rfl, fun _ ht => by
    obtain ⟨r, -, rfl⟩ := List.mem_map.mp ht
    exact ⟨r, rfl⟩⟩

end GateSample

open GateSample in
/-- With a limit of one, two requests with a key and no token get through in the first minute. -/
theorem limit_passed_by_key :
    ∃ s, (gateSystem jwt 1).Reach s ∧ ¬s.1.forwarded.count (1, 0) ≤ (1 : ℤ).toNat := by
  let f := exec (GatePhase.step jwt 1) fun _ _ _ => True
  have hrun : ((steps 0 5 ++ steps 1 5).foldlM f (start, [withKey, withKey].map arrive)).map
      (fun s => s.1.forwarded.count (1, 0)) = some 2 := by decide +kernel
  obtain ⟨s, hs, hcount⟩ := Option.map_eq_some_iff.mp hrun
  have hreach : ((gateSystem jwt 1).restrict (StepMeets fun _ _ _ => True)).Reach s :=
    .foldlM (f := f) (fun _ _ _ _ h => exec_step h) (.init (start_gate 1 _)) hs
  refine ⟨s, hreach.of_restrict, ?_⟩
  rw [hcount]
  decide

open GateSample in
/-- Of a request with a token and one with the key and the token, the limit lets one through. -/
theorem limit_binds_one :
    ∃ s, ((gateSystem jwt 1).restrict (StepMeets (Metered jwt 1 0))).Reach s ∧
      s.2.all Next.isDone ∧ s.1.forwarded.count (1, 0) ≤ (1 : ℤ).toNat := by
  let f := exec (GatePhase.step jwt 1) (Metered jwt 1 0)
  have hrun : ((steps 0 4 ++ steps 1 3 ++ steps 0 3).foldlM f
      (start, [withToken, { withKey with authorization := some "Bearer token" }].map arrive)).map
      (fun s => s.2.all Next.isDone) = some true := by decide +kernel
  obtain ⟨s, hs, hdone⟩ := Option.map_eq_some_iff.mp hrun
  have hreach : ((gateSystem jwt 1).restrict (StepMeets (Metered jwt 1 0))).Reach s :=
    .foldlM (f := f) (fun _ _ _ _ h => exec_step h) (.init (start_gate 1 _)) hs
  exact ⟨s, hreach, hdone, limit_binds 1 0 hreach⟩

end CryptoExchange
