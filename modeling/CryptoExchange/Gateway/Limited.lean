import CryptoExchange.Gateway.Mediation
import CryptoExchange.Gateway.RateLimit
import CryptoExchange.Realtime.KlineChannels
import Mathlib

/-!
# Who is limited

`RateLimitMiddleware` refuses a request when the counter of its principal and its minute is over the
limit. The counters are in Redis: they can be unavailable, and they can expire. Neither makes a
counter higher than the number of its increments, and a request increments one counter once.

* `redisKey_inj`: the key of a counter tells the principal and the minute.
* `limiting`: any number of requests go through the stack, and the increments are recorded.
* `Place`: where a request is. `step_place`: one step, `limiting_counted`: a run.
* `limited_for_own`: a request is refused for requests of its own principal only, which made an
  increment each.
-/

namespace CryptoExchange

open Lib RateLimitMiddleware

/-! ## Keys -/

/-- The last colon of a key is the one before the minute. -/
theorem redisKey_inj {p p' : String} {m m' : ℕ} :
    redisKey p m = redisKey p' m' ↔ p = p' ∧ m = m' := by
  constructor
  · intro h
    have hcolon : ∀ n : ℕ, ':' ∉ (toString n).toList := fun n hn =>
      absurd (natText_isDigit hn) (by decide)
    have hkey := congrArg String.toList h
    simp only [redisKey, String.toList_append, List.append_assoc] at hkey
    have hrest := List.append_cancel_left hkey
    obtain ⟨hp, hm⟩ := append_last_inj (hcolon m) (hcolon m') hrest
    exact ⟨String.toList_injective hp, Nat.repr_injective (String.toList_injective hm)⟩
  · rintro ⟨rfl, rfl⟩
    rfl

theorem countedUnder_eq_some {jwt : Jwt} {r : HttpRequest} {t : ℕ} {key : String}
    (h : countedUnder jwt none r t = some key) :
    ∃ p, principal jwt none r t = some p ∧ key = redisKey p (minuteBucket t) := by
  unfold countedUnder at h
  split at h
  · cases h
  split at h
  · cases h
  · obtain ⟨p, hp, e⟩ := Option.map_eq_some_iff.mp h
    exact ⟨p, hp, e.symm⟩

/-! ## Increments -/

/-- An increment, with the number of the request that made it. -/
structure Increment where
  request : ℕ
  key : String
  deriving DecidableEq

/-- The keys that a step increments. -/
def incremented (a : GateAnswer) : GatePhase → List String
  | .incr _ key => if a.redisFails then [] else [key]
  | _ => []

abbrev GateState := Gate × List (Next GatePhase GateReply)

def recordIncrement (s : GateState) (act : ℕ × GateAnswer) (_ : GateState)
    (made : List Increment) : List Increment :=
  match s.2[act.1]? with
  | some (.await p) => made ++ (incremented act.2 p).map fun key => ⟨act.1, key⟩
  | _ => made

/-- The increments of a key. -/
def counted (made : List Increment) (key : String) : ℕ := made.countP fun x => x.key = key

/-- The requests go through the stack, side by side, and Redis is empty at first. -/
def limiting (jwt : Jwt) (rateLimitPerMinute : ℤ) (requests : List HttpRequest) : Sys :=
  (interleave (GatePhase.step jwt rateLimitPerMinute) fun g ts =>
    (∀ key, g.counters key = none) ∧
      ts = requests.map fun r => .await (.enter { request := r, rest := middlewareStack }))
    |>.withHistory [] recordIncrement

theorem Counters.incr_fst_le (cs : Counters) (now : ℕ) (key : String) :
    (cs.incr now key).1 ≤ cs.value key + 1 := by
  unfold Counters.incr Counters.find Counters.value
  cases hc : cs key with
  | none => exact le_rfl
  | some c =>
    rw [Option.filter_some]
    split
    · exact le_rfl
    · simp

section

variable {jwt : Jwt} {rateLimitPerMinute : ℤ} {g g' : Gate} {a : GateAnswer} {p : GatePhase}
variable {n : Next GatePhase GateReply} {r : HttpRequest} {made made' : List Increment} {i : ℕ}

/-- `INCR` fails and the request passes, or it counts. -/
theorem step_incr_counts {p : Passing} {key : String}
    (h : GatePhase.step jwt rateLimitPerMinute g a (.incr p key) = (g', n)) :
    incremented a (.incr p key) = [] ∧ g'.counters = g.counters ∧ n = .await (.enter p) ∨
      incremented a (.incr p key) = [key] ∧
        g'.counters = (g.counters.incr (g.now + a.elapsed) key).2 ∧
        (n = .await (.expire p key (g.counters.incr (g.now + a.elapsed) key).1) ∨
          n = GatePhase.checked rateLimitPerMinute p
            (g.counters.incr (g.now + a.elapsed) key).1) := by
  by_cases hf : a.redisFails = true
  · simp only [GatePhase.step, hf, if_true] at h
    cases h
    exact .inl ⟨if_pos hf, rfl, rfl⟩
  · rcases step_incr h with ⟨hfails, -⟩ | ⟨rfl, hn⟩
    · exact absurd hfails hf
    · exact .inr ⟨if_neg hf, rfl, hn⟩

/-- A counter goes up by its own increments at most. -/
theorem step_values (h : GatePhase.step jwt rateLimitPerMinute g a p = (g', n)) (key : String) :
    g'.counters.value key ≤ g.counters.value key + (incremented a p).count key := by
  cases p with
  | enter p =>
    refine (le_of_eq ?_).trans (Nat.le_add_right _ _)
    unfold GatePhase.step at h
    dsimp only at h
    split at h
    case h_1 =>
      cases h
      unfold GatePhase.routed
      split <;> rfl
    case h_4 => split at h <;> (cases h; rfl)
    case h_5 => split at h <;> (cases h; rfl)
    all_goals cases h; rfl
  | incr p key' =>
    rcases step_incr_counts h with ⟨-, hc, -⟩ | ⟨he, hc, -⟩
    · rw [hc]
      exact Nat.le_add_right _ _
    · rw [hc, he, Counters.incr_value]
      by_cases hkey : key = key'
      · rw [if_pos hkey, hkey, List.count_singleton_self]
        exact Counters.incr_fst_le ..
      · rw [if_neg hkey]
        exact Nat.le_add_right _ _
  | expire p key' count =>
    rcases step_expire h with ⟨-, rfl, -⟩ | ⟨rfl, -⟩
    · exact Nat.le_add_right _ _
    · rw [Counters.expire_value]
      exact Nat.le_add_right _ _

/-! ## Where a request is -/

/-- The request has a principal and a minute, by then, and this is their key. -/
def HasKey (jwt : Jwt) (now : ℕ) (r : HttpRequest) (key : String) : Prop :=
  ∃ t ≤ now, countedUnder jwt none r t = some key

/-- The request number `i`, in front of the limiter, in it, and behind it. -/
def Place (jwt : Jwt) (rateLimitPerMinute : ℤ) (now : ℕ) (made : List Increment) (i : ℕ)
    (r : HttpRequest) : Next GatePhase GateReply → Prop
  | .await (.enter p) => p.request = r ∧
      (p.state = none ∧ p.seen = none ∧ i ∉ made.map Increment.request ∧
          (p.rest = middlewareStack ∨ p.rest = middlewareStack.tail) ∨
        p.rest <:+ [.auth, .cors])
  | .await (.incr p key) => p.request = r ∧ p.rest = [.auth, .cors] ∧
      i ∉ made.map Increment.request ∧ HasKey jwt now r key
  | .await (.expire p key count) => p.request = r ∧ p.rest = [.auth, .cors] ∧
      ⟨i, key⟩ ∈ made ∧ count ≤ counted made key
  | .done (.answered status) => status = 429 →
      ∃ key, ⟨i, key⟩ ∈ made ∧ rateLimitPerMinute < counted made key
  | .done .routed => True

theorem HasKey.later {now now' : ℕ} {key : String} (h : HasKey jwt now r key) (hn : now ≤ now') :
    HasKey jwt now' r key := by
  obtain ⟨t, ht, hk⟩ := h
  exact ⟨t, ht.trans hn, hk⟩

theorem counted_mono (h : made <+: made') (key : String) : counted made key ≤ counted made' key :=
  h.sublist.countP_le

/-- What the other requests do leaves a request where it is. -/
theorem Place.later {now now' : ℕ} (h : Place jwt rateLimitPerMinute now made i r n)
    (hn : now ≤ now') (hm : made <+: made')
    (hi : i ∉ made.map Increment.request → i ∉ made'.map Increment.request) :
    Place jwt rateLimitPerMinute now' made' i r n := by
  match n, h with
  | .await (.enter p), ⟨hr, h⟩ =>
    exact ⟨hr, h.imp_left fun ⟨hs, hseen, hfresh, hrest⟩ => ⟨hs, hseen, hi hfresh, hrest⟩⟩
  | .await (.incr p key), ⟨hr, hrest, hfresh, hk⟩ =>
    exact ⟨hr, hrest, hi hfresh, hk.later hn⟩
  | .await (.expire p key count), ⟨hr, hrest, hmem, hc⟩ =>
    exact ⟨hr, hrest, hm.subset hmem, hc.trans (counted_mono hm key)⟩
  | .done (.answered status), h =>
    intro hs
    obtain ⟨key, hmem, hc⟩ := h hs
    have hle := counted_mono hm key
    exact ⟨key, hm.subset hmem, by omega⟩
  | .done .routed, _ => trivial

/-- A count that was checked. -/
theorem checked_place {now count : ℕ} {q : Passing} {key : String} (hr : q.request = r)
    (hrest : q.rest = [.auth, .cors]) (hmem : (⟨i, key⟩ : Increment) ∈ made)
    (hc : count ≤ counted made key) :
    Place jwt rateLimitPerMinute now made i r (GatePhase.checked rateLimitPerMinute q count) := by
  unfold GatePhase.checked
  split
  · exact fun _ => ⟨key, hmem, by omega⟩
  · exact ⟨hr, .inr (by rw [hrest])⟩

/-- 429 is the limiter's answer alone. -/
theorem dispatch_refuse_status
    {authenticate : String → String → Except Failure (Option (ApiKey × Option User))}
    {decode : String → Option Claims} {status : ℕ} {detail : String}
    (h : (AuthMiddleware.dispatch authenticate decode r).outcome = .refuse status detail) :
    status ≠ 429 := by
  have hkey : ∀ keyId secret, (AuthMiddleware.keyDispatch authenticate keyId secret).outcome =
      .refuse status detail → status ≠ 429 := by
    intro keyId secret h
    unfold AuthMiddleware.keyDispatch at h
    split at h
    · cases h; decide
    split at h <;> cases h <;> decide
  have htoken : ∀ bearer, (AuthMiddleware.tokenDispatch decode bearer).outcome =
      .refuse status detail → status ≠ 429 := by
    intro bearer h
    unfold AuthMiddleware.tokenDispatch at h
    split at h
    · cases h; decide
    split at h
    · cases h; decide
    split at h <;> cases h
    decide
  rw [AuthMiddleware.dispatch_eq] at h
  split at h
  · cases h
  split at h
  · cases h
  split at h
  · exact hkey _ _ h
  · exact htoken _ h

theorem step_auth_answered {q : Passing} {rest : List Middleware} {status : ℕ}
    (h : GatePhase.step jwt rateLimitPerMinute g a (.enter { q with rest := .auth :: rest }) =
      (g', .done (.answered status))) : status ≠ 429 := by
  unfold GatePhase.step at h
  dsimp only at h
  split at h
  · rename_i hf
    cases h
    exact dispatch_refuse_status hf
  · cases h

/-- No middleware but the limiter answers so. -/
theorem step_enter_answered {p : Passing} {status : ℕ}
    (h : GatePhase.step jwt rateLimitPerMinute g a (.enter p) = (g', .done (.answered status))) :
    status ≠ 429 := by
  obtain ⟨request, state, seen, rest⟩ := p
  rcases rest with _ | ⟨_ | _ | _ | _, rest⟩
  case cons.auth => exact step_auth_answered (q := ⟨request, state, seen, []⟩) h
  case cons.rateLimit =>
    unfold GatePhase.step at h
    dsimp only at h
    split at h <;> cases h
  all_goals cases h

theorem suffix_cases {rest : List Middleware} (h : rest <:+ [.auth, .cors]) :
    rest = [.auth, .cors] ∨ rest = [.cors] ∨ rest = [] := by
  simpa [List.suffix_cons_iff] using h

theorem counted_append (key : String) (keys : List String) :
    counted (made ++ keys.map fun key => ⟨i, key⟩) key = counted made key + keys.count key := by
  rw [counted, List.countP_append, List.countP_map]
  rfl

theorem counted_concat (key : String) :
    counted (made ++ [⟨i, key⟩]) key = counted made key + 1 := by
  have h : counted (made ++ [⟨i, key⟩]) key = counted made key + [key].count key :=
    counted_append key [key]
  rwa [List.count_singleton_self] at h

/-- **Step.** A request moves on, with what it has counted. -/
theorem step_place (hv : ∀ key, g.counters.value key ≤ counted made key)
    (hT : Place jwt rateLimitPerMinute g.now made i r (.await p))
    (h : GatePhase.step jwt rateLimitPerMinute g a p = (g', n)) :
    Place jwt rateLimitPerMinute g'.now
      (made ++ (incremented a p).map fun key => ⟨i, key⟩) i r n := by
  have hnow : g'.now = g.now + a.elapsed := step_now h
  cases p with
  | enter p =>
    obtain ⟨request, state, seen, rest⟩ := p
    simp only [incremented, List.map_nil, List.append_nil]
    obtain ⟨rfl, ⟨rfl, rfl, hfresh, rfl | rfl⟩ | hrest⟩ := hT
    · cases h
      exact ⟨rfl, .inl ⟨rfl, rfl, hfresh, .inr rfl⟩⟩
    · obtain ⟨-, ⟨-, rfl⟩ | ⟨key, hk, rfl⟩⟩ := step_limiter rfl h
      · exact ⟨rfl, .inr (List.suffix_refl _)⟩
      · exact ⟨rfl, rfl, hfresh, _, hnow.ge, hk⟩
    · -- behind the limiter
      rcases suffix_cases hrest with rfl | rfl | rfl
      · obtain ⟨-, ⟨status, rfl⟩ | ⟨state, -, rfl⟩⟩ := step_auth h
        · exact fun hs => absurd hs (step_auth_answered (q := ⟨request, state, seen, []⟩) h)
        · exact ⟨rfl, .inr ⟨[.auth], rfl⟩⟩
      · cases h
        exact ⟨rfl, .inr ⟨[.auth, .cors], rfl⟩⟩
      · cases h
        trivial
  | incr p key =>
    obtain ⟨hr, hrest, hfresh, hk⟩ := hT
    have hmem : (⟨i, key⟩ : Increment) ∈ made ++ [⟨i, key⟩] :=
      List.mem_append_right _ (List.mem_singleton_self _)
    rcases step_incr_counts h with ⟨he, -, rfl⟩ | ⟨he, -, hn⟩
    · exact ⟨hr, .inr (by rw [hrest])⟩
    · have hcount : (g.counters.incr (g.now + a.elapsed) key).1 ≤
          counted (made ++ [⟨i, key⟩]) key := by
        rw [counted_concat]
        exact (Counters.incr_fst_le ..).trans (Nat.succ_le_succ (hv key))
      rw [he]
      rcases hn with rfl | rfl
      · exact ⟨hr, hrest, hmem, hcount⟩
      · exact checked_place hr hrest hmem hcount
  | expire p key count =>
    obtain ⟨hr, hrest, hmem, hc⟩ := hT
    simp only [incremented, List.map_nil, List.append_nil]
    rcases step_expire h with ⟨-, -, rfl⟩ | ⟨-, rfl⟩
    · exact ⟨hr, .inr (by rw [hrest])⟩
    · exact checked_place hr hrest hmem hc

end

/-! ## Runs -/

/-- The invariant: the counters, the increments, and where each request is. -/
structure Counted (jwt : Jwt) (rateLimitPerMinute : ℤ) (requests : List HttpRequest)
    (s : GateState × List Increment) : Prop where
  values : ∀ key, s.1.1.counters.value key ≤ counted s.2 key
  once : (s.2.map Increment.request).Nodup
  own : ∀ x ∈ s.2, ∃ r, requests[x.request]? = some r ∧ HasKey jwt s.1.1.now r x.key
  places : ∀ i n, s.1.2[i]? = some n → ∃ r, requests[i]? = some r ∧
    Place jwt rateLimitPerMinute s.1.1.now s.2 i r n

section

variable {jwt : Jwt} {rateLimitPerMinute : ℤ} {requests : List HttpRequest}

/-- A step increments a key at most, the one that its request has. -/
theorem incremented_cases {now i : ℕ} {made : List Increment} {r : HttpRequest} {a : GateAnswer}
    {p : GatePhase} (h : Place jwt rateLimitPerMinute now made i r (.await p)) :
    incremented a p = [] ∨ ∃ key, incremented a p = [key] ∧
      i ∉ made.map Increment.request ∧ HasKey jwt now r key := by
  cases p with
  | enter p | expire p key count => exact .inl rfl
  | incr p key =>
    unfold incremented
    by_cases hf : a.redisFails = true
    · exact .inl (if_pos hf)
    · exact .inr ⟨key, if_neg hf, h.2.2⟩

/-- The invariant goes on with a step of the request `i`. -/
theorem Counted.next {g g' : Gate} {ts : List (Next GatePhase GateReply)} {made : List Increment}
    {i : ℕ} {a : GateAnswer} {p : GatePhase} {n : Next GatePhase GateReply}
    (h : Counted jwt rateLimitPerMinute requests ((g, ts), made)) (hp : ts[i]? = some (.await p))
    (hs : GatePhase.step jwt rateLimitPerMinute g a p = (g', n)) :
    Counted jwt rateLimitPerMinute requests
      ((g', ts.set i n), made ++ (incremented a p).map fun key => ⟨i, key⟩) := by
  obtain ⟨hvalues, honce, hown, hplaces⟩ := h
  obtain ⟨r, hr, hplace⟩ := hplaces i _ hp
  have hnow : g.now ≤ g'.now := (Nat.le_add_right _ _).trans (step_now hs).ge
  refine ⟨fun key => ?_, ?_, ?_, fun j m hm => ?_⟩
  · rw [counted_append]
    exact (step_values hs key).trans (Nat.add_le_add_right (hvalues key) _)
  · rcases incremented_cases (a := a) hplace with he | ⟨key, he, hfresh, -⟩
    · rw [he, List.map_nil, List.append_nil]
      exact honce
    · rw [he, List.map_singleton, List.map_append]
      refine List.nodup_append.mpr ⟨honce, List.nodup_singleton _, ?_⟩
      rintro x hx y hy rfl
      obtain rfl : x = i := List.mem_singleton.mp hy
      exact hfresh hx
  · have hold : ∀ x ∈ made, ∃ r, requests[x.request]? = some r ∧ HasKey jwt g'.now r x.key := by
      intro x hx
      obtain ⟨r', hr', hk⟩ := hown x hx
      exact ⟨r', hr', hk.later hnow⟩
    rcases incremented_cases (a := a) hplace with he | ⟨key, he, -, hk⟩
    · rw [he, List.map_nil, List.append_nil]
      exact hold
    · rw [he]
      exact List.forall_mem_append.mpr ⟨hold,
        List.forall_mem_singleton.mpr ⟨r, hr, hk.later hnow⟩⟩
  · rw [List.getElem?_set] at hm
    by_cases e : i = j
    · subst e
      rw [if_pos rfl] at hm
      split at hm
      · cases hm
        exact ⟨r, hr, step_place hvalues hplace hs⟩
      · cases hm
    · rw [if_neg e] at hm
      obtain ⟨r', hr', hplace'⟩ := hplaces j m hm
      refine ⟨r', hr', hplace'.later hnow (List.prefix_append _ _) fun hfresh hmem => ?_⟩
      rw [List.map_append, List.map_map] at hmem
      rcases List.mem_append.mp hmem with hmem | hmem
      · exact hfresh hmem
      · obtain ⟨key, -, rfl⟩ := List.mem_map.mp hmem
        exact e rfl

theorem limiting_counted :
    (limiting jwt rateLimitPerMinute requests).Inductive
      (Counted jwt rateLimitPerMinute requests) where
  init := by
    rintro ⟨⟨g, ts⟩, made⟩ ⟨⟨hempty, rfl⟩, rfl⟩
    refine ⟨fun key => ?_, List.nodup_nil, List.forall_mem_nil _, fun i n hn => ?_⟩
    · rw [Counters.value, hempty key]
      exact Nat.zero_le _
    · rw [List.getElem?_map] at hn
      obtain ⟨r, hr, rfl⟩ := Option.map_eq_some_iff.mp hn
      exact ⟨r, hr, rfl, .inl ⟨rfl, rfl, List.not_mem_nil, .inl rfl⟩⟩
  step := by
    rintro ⟨⟨g, ts⟩, made⟩ ⟨i, a⟩ ⟨s', made'⟩ hI ⟨⟨p, hp, hs⟩, hm⟩
    have hmade : made' = made ++ (incremented a p).map fun key => ⟨i, key⟩ := by
      simp only [recordIncrement] at hm
      rw [hm, show ts[i]? = some (.await p) from hp]
    obtain rfl : s' = ((GatePhase.step jwt rateLimitPerMinute g a p).1,
      ts.set i (GatePhase.step jwt rateLimitPerMinute g a p).2) := hs
    rw [hmade]
    exact hI.next hp rfl

/-- The request that made the increment had this principal in this minute, by then. -/
def MadeFor (jwt : Jwt) (requests : List HttpRequest) (now : ℕ) (who : String) (minute : ℕ)
    (x : Increment) : Prop :=
  x.key = redisKey who minute ∧ ∃ r t, requests[x.request]? = some r ∧ t ≤ now ∧
    minuteBucket t = minute ∧ principal jwt none r t = some who

theorem Counted.madeFor {s : GateState × List Increment}
    (h : Counted jwt rateLimitPerMinute requests s) {x : Increment} (hx : x ∈ s.2) :
    ∃ who minute, MadeFor jwt requests s.1.1.now who minute x := by
  obtain ⟨r, hr, t, ht, hk⟩ := h.own x hx
  obtain ⟨who, hwho, e⟩ := countedUnder_eq_some hk
  exact ⟨who, minuteBucket t, e, r, t, hr, ht, rfl, hwho⟩

/-- **Nobody is limited for the requests of others.** Any number of requests go through the stack
in any order, and Redis fails and expires as it does. A request makes one increment at most, of a
counter of its own principal and minute, which have it for themselves. When a request is refused
with 429, more requests than the limit have made an increment, it among them, all of one principal
and one minute; and the limiter alone refuses so. -/
theorem limited_for_own {s : GateState × List Increment}
    (h : (limiting jwt rateLimitPerMinute requests).Reach s) :
    (s.2.map Increment.request).Nodup ∧
    (∀ x ∈ s.2, ∃ who minute, MadeFor jwt requests s.1.1.now who minute x) ∧
    (∀ who who' minute minute', redisKey who minute = redisKey who' minute' →
      who = who' ∧ minute = minute') ∧
    (∀ i, s.1.2[i]? = some (.done (.answered 429)) →
      ∃ (who : String) (minute : ℕ) (js : List ℕ), js.Nodup ∧ i ∈ js ∧
        rateLimitPerMinute < js.length ∧
        ∀ j ∈ js, ∃ x ∈ s.2, x.request = j ∧ MadeFor jwt requests s.1.1.now who minute x) ∧
    ∀ i a s', (limiting jwt rateLimitPerMinute requests).step s (i, a) s' →
      ∀ p, s.1.2[i]? = some (.await (.enter p)) → s'.1.2[i]? ≠ some (.done (.answered 429)) := by
  have hI := limiting_counted.reach h
  refine ⟨hI.once, fun x hx => hI.madeFor hx, fun _ _ _ _ => redisKey_inj.mp, fun i hi => ?_,
    fun i a s' hst p hp => ?_⟩
  · obtain ⟨r, hr, hplace⟩ := hI.places i _ hi
    obtain ⟨key, hmem, hcount⟩ := hplace rfl
    obtain ⟨who, minute, rfl, -⟩ := hI.madeFor hmem
    refine ⟨who, minute, (s.2.filter fun x => x.key = redisKey who minute).map Increment.request,
      hI.once.sublist (List.filter_sublist.map _),
      List.mem_map.mpr ⟨_, List.mem_filter.mpr ⟨hmem, by simp⟩, rfl⟩, ?_, fun j hj => ?_⟩
    · rw [List.length_map, ← List.countP_eq_length_filter]
      exact hcount
    · obtain ⟨x, hfilter, rfl⟩ := List.mem_map.mp hj
      obtain ⟨hx, hxkey⟩ := List.mem_filter.mp hfilter
      obtain ⟨who', minute', e, hrest⟩ := hI.madeFor hx
      obtain ⟨rfl, rfl⟩ := redisKey_inj.mp (e.symm.trans (of_decide_eq_true hxkey))
      exact ⟨x, hx, rfl, e, hrest⟩
  · obtain ⟨⟨q, hq, hs⟩, -⟩ := hst
    obtain rfl : q = .enter p := by
      rw [hp] at hq
      cases hq
      rfl
    have hlt : i < s.1.2.length := (List.getElem?_eq_some_iff.mp hp).1
    rw [show s'.1.2 = _ from congrArg Prod.snd hs, List.getElem?_set_self hlt]
    exact fun e => step_enter_answered (Prod.ext rfl (Option.some.inj e)) rfl

end

/-! ## A refused request -/

namespace GateSample

/-- A login from some client. -/
def login : HttpRequest := ⟨"POST", "/auth/login", some "10.0.0.1", none, none, none⟩

def replyOf : Next GatePhase GateReply → Option GateReply
  | .await _ => none
  | .done reply => some reply

end GateSample

open GateSample in
/-- With a limit of one, the second request of a user is refused, and the login in between is
not. -/
theorem limited_for_own_second :
    ∃ s, (limiting jwt 1 [withToken, login, withToken]).Reach s ∧
      s.1.2[2]? = some (.done (.answered 429)) ∧
      ∃ (who : String) (minute : ℕ) (js : List ℕ), js.Nodup ∧ 2 ∈ js ∧ 1 < (js.length : ℤ) ∧
        ∀ j ∈ js, ∃ x ∈ s.2, x.request = j ∧
          MadeFor jwt [withToken, login, withToken] s.1.1.now who minute x := by
  let f (s : GateState × List Increment) (act : ℕ × GateAnswer) :
      Option (GateState × List Increment) :=
    (exec (GatePhase.step jwt 1) (fun _ _ _ => True) s.1 act).map fun s' =>
      (s', recordIncrement s.1 act s' s.2)
  have hf : ∀ s act s', f s act = some s' →
      (limiting jwt 1 [withToken, login, withToken]).step s act s' := by
    intro s act s' h
    obtain ⟨s₁, h₁, rfl⟩ := Option.map_eq_some_iff.mp h
    exact ⟨(exec_step h₁).2, rfl⟩
  have hrun : ((steps 0 4 ++ steps 1 4 ++ steps 2 3).foldlM f
      ((start, [withToken, login, withToken].map arrive), [])).map (fun s =>
        s.1.2.map replyOf) = some [none, none, some (.answered 429)] := by
    decide +kernel
  obtain ⟨s, hs, hreplies⟩ := Option.map_eq_some_iff.mp hrun
  have hrefused : s.1.2[2]? = some (.done (.answered 429)) := by
    have hget := congrArg (fun l : List (Option GateReply) => l[2]?) hreplies
    rw [List.getElem?_map] at hget
    obtain ⟨n, hn, hreply⟩ := Option.map_eq_some_iff.mp hget
    cases n with
    | await p => cases hreply
    | done reply => cases hreply; exact hn
  have hreach : (limiting jwt 1 [withToken, login, withToken]).Reach s :=
    .foldlM (fun s act _ s' h => hf s act s' h) (.init ⟨⟨fun _ => rfl, rfl⟩, rfl⟩) hs
  exact ⟨s, hreach, hrefused, (limited_for_own hreach).2.2.2.1 2 hrefused⟩

end CryptoExchange
