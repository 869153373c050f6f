import CryptoExchange.Lib.Machine
import CryptoExchange.Risk.Leverage

/-!
# Market prices

`app/services/market_service.py` and the mark-price stream (`app/services/market_stream.py`): one cache
of prices that REST calls and the stream fill, and one flag (`_stream_active`) by which `tick` decides
whether to trust it. Times and the backoff between two connections are left out.

* `marketStep`: the machine of a call or of the stream; `market`: any number of them, interleaved.
* `PriceWatch`: what one call fetched, and what the connection that is up has delivered.
* `tick_current_iff`: when the prices that a `tick` returns are all from one of the two.
-/

namespace CryptoExchange

open Lib

/-- `MarketService`, and `_running` of `MarketStreamService`. -/
structure Market where
  prices : String → Option PyFloat
  streamActive : Bool
  running : Bool

/-- `TRACKED_SYMBOLS`, which the stream subscribes to. -/
def trackedSymbols : List String := ["BTCUSDT", "ETHUSDT"]

/-- What the mark-price connection has next. `other` is a message of another kind, or one that fails. -/
inductive Frame where
  | markPriceUpdate (symbol : String) (price : PyFloat)
  | other
  | closed

/-- What an awaited call answers. -/
structure MarketAnswer where
  /-- `float` of what `binance_service.get_price` returns; `none` when one of the two raises. -/
  price : Option PyFloat := none
  connects : Bool := true
  frame : Frame := .other

abbrev Prices := List (String × PyFloat)

inductive MarketReply where
  /-- `updated`, without the time of the call. -/
  | updated (prices : Prices)
  | price (p : Except String PyFloat)
  | stopped

/-- Each call before its start, and at each of its awaits. -/
inductive MarketPhase where
  | tick (symbol : Option String)
  | pollPrice (item : String) (rest : List String) (updated : Prices)
  | getPrice (symbol : String)
  | fetchPrice (symbol : String)
  | startStream
  | connect
  | receive
  | broadcast
  | close
  | sleep
  | stopStream

namespace Market

def store (m : Market) (symbol : String) (p : PyFloat) : Market :=
  { m with prices := Function.update m.prices symbol (some p) }

def setPrice (upper : String → String) (m : Market) (symbol : String) (p : PyFloat) : Market :=
  m.store (upper symbol) p

def inactive (m : Market) : Market := { m with streamActive := false }

/-- The entries of the cache for some symbols. -/
def cached (m : Market) (symbols : List String) : Prices :=
  symbols.filterMap fun item => (m.prices item).map fun p => (item, p)

end Market

section

variable (upper : String → String)

/-- `symbols` of `tick`; an empty symbol counts as none. -/
def tickSymbols : Option String → List String
  | none => trackedSymbols
  | some symbol => if symbol = "" then trackedSymbols else [upper symbol]

abbrev AfterMarket := Next MarketPhase MarketReply

/-- The REST loop of `tick`. -/
def pollLoop (m : Market) (updated : Prices) : List String → Market × AfterMarket
  | [] => (m, .done (.updated updated))
  | item :: rest => (m, .await (.pollPrice item rest updated))

/-- The head of `_stream_loop`. -/
def streamLoop (m : Market) : Market × AfterMarket :=
  if m.running then (m, .await .connect) else (m, .done .stopped)

/-- `_stream_loop` after `_connect_and_process`, whether it returned or raised. -/
def disconnected (m : Market) : Market × AfterMarket :=
  if m.running then (m.inactive, .await .sleep) else (m.inactive, .done .stopped)

def marketStep (m : Market) (ans : MarketAnswer) : MarketPhase → Market × AfterMarket
  | .tick symbol =>
    if m.streamActive then (m, .done (.updated (m.cached (tickSymbols upper symbol))))
    else pollLoop m [] (tickSymbols upper symbol)
  | .pollPrice item rest updated =>
    match ans.price with
    | none => pollLoop m updated rest
    | some p => pollLoop (m.store item p) (updated ++ [(item, p)]) rest
  | .getPrice symbol => (m, .await (.fetchPrice (upper symbol)))
  | .fetchPrice symbol =>
    match ans.price with
    | none => (m, .done (.price (.error ("Unsupported symbol or exchange unavailable: " ++ symbol))))
    | some p => (m.store symbol p, .done (.price (.ok p)))
  | .startStream => streamLoop { m with running := true }
  | .connect =>
    if ans.connects then ({ m with streamActive := true }, .await .receive) else disconnected m
  | .receive =>
    match ans.frame with
    | .markPriceUpdate symbol p => (m.setPrice upper symbol p, .await .broadcast)
    | .other => (m, .await .receive)
    | .closed => (m, .await .close)
  | .broadcast => (m, .await .receive)
  | .close => disconnected m
  | .sleep => streamLoop m
  | .stopStream => ({ m.inactive with running := false }, .done .stopped)

/-- A phase that a call or the stream starts in. -/
def MarketPhase.Starting : MarketPhase → Prop
  | .tick _ | .getPrice _ | .startStream | .stopStream => True
  | _ => False

abbrev MarketState := Market × List AfterMarket

/-- Any number of calls and one stream at most, interleaved, from the start of the process. -/
def market : Sys :=
  interleave (marketStep upper) fun m ts =>
    m = ⟨fun _ => none, false, false⟩ ∧
      (∀ t ∈ ts, ∃ p : MarketPhase, t = .await p ∧ p.Starting) ∧
      ∀ (i j : ℕ), ts[i]? = some (.await .startStream) → ts[j]? = some (.await .startStream) → i = j

/-! ## A call, watched -/

/-- What is known of the prices until a call returns. -/
structure PriceWatch where
  /-- The symbols that the active connection has delivered; `none` without one. -/
  delivered : Option (List String) := none
  /-- What the call itself was answered by the exchange. -/
  fetched : Prices := []
  deriving DecidableEq

/-- The active connection has delivered a price of the symbol. -/
def PriceWatch.Delivers (g : PriceWatch) (symbol : String) : Prop :=
  ∃ symbols ∈ g.delivered, symbol ∈ symbols

/-- A price that the call fetched, or of a symbol that the active connection delivers. -/
def PriceWatch.Current (g : PriceWatch) (x : String × PyFloat) : Prop :=
  x ∈ g.fetched ∨ g.Delivers x.1

/-- What a step adds; `own` when the call itself makes it. -/
def PriceWatch.note (own : Bool) (ans : MarketAnswer) (g : PriceWatch) : MarketPhase → PriceWatch
  | .pollPrice item _ _ =>
    if own then { g with fetched := g.fetched ++ (ans.price.map fun p => (item, p)).toList } else g
  | .connect => { g with delivered := if ans.connects then some [] else none }
  | .receive =>
    match ans.frame with
    | .markPriceUpdate symbol _ => { g with delivered := g.delivered.map (upper symbol :: ·) }
    | _ => g
  | .close | .stopStream => { g with delivered := none }
  | _ => g

/-- Watching the call `i` until it returns. -/
def watchPrices (i : ℕ) (s : MarketState) (act : ℕ × MarketAnswer) (_ : MarketState)
    (g : PriceWatch) : PriceWatch :=
  match s.2[i]?, s.2[act.1]? with
  | some (.await _), some (.await p) => g.note upper (act.1 = i) act.2 p
  | _, _ => g

def watchedMarket (i : ℕ) : Sys := (market upper).withHistory ({} : PriceWatch) (watchPrices upper i)

end

/-! ## Steps -/

/-- The prices that a call has polled so far, or returns. -/
def polled : AfterMarket → Prices
  | .await (.pollPrice _ _ updated) => updated
  | .done (.updated prices) => prices
  | _ => []

@[simp] theorem pollLoop_polled (m : Market) (updated : Prices) (rest : List String) :
    polled (pollLoop m updated rest).2 = updated := by
  cases rest <;> rfl

@[simp] theorem streamLoop_polled (m : Market) : polled (streamLoop m).2 = [] := by
  unfold streamLoop
  split <;> rfl

@[simp] theorem disconnected_polled (m : Market) : polled (disconnected m).2 = [] := by
  unfold disconnected
  split <;> rfl

@[simp] theorem pollLoop_market (m : Market) (updated : Prices) (rest : List String) :
    (pollLoop m updated rest).1 = m := by
  cases rest <;> rfl

@[simp] theorem streamLoop_active (m : Market) :
    (streamLoop m).1.streamActive = m.streamActive := by
  unfold streamLoop
  split <;> rfl

@[simp] theorem disconnected_active (m : Market) : (disconnected m).1.streamActive = false := by
  unfold disconnected
  split <;> rfl

theorem mem_cached {m : Market} {symbols : List String} {x : String × PyFloat} :
    x ∈ m.cached symbols ↔ x.1 ∈ symbols ∧ m.prices x.1 = some x.2 := by
  obtain ⟨symbol, p⟩ := x
  constructor
  · intro h
    obtain ⟨item, hitem, e⟩ := List.mem_filterMap.mp h
    obtain ⟨q, hq, e⟩ := Option.map_eq_some_iff.mp e
    cases e
    exact ⟨hitem, hq⟩
  · rintro ⟨hitem, hp⟩
    exact List.mem_filterMap.mpr ⟨symbol, hitem, by rw [hp]; rfl⟩

section

variable {upper : String → String} {m : Market} {ans : MarketAnswer} {g : PriceWatch}
  {p : MarketPhase}

/-- The watch and `_stream_active` agree on whether there is a connection. -/
theorem note_active {own : Bool} (h : g.delivered.isSome = m.streamActive) :
    (g.note upper own ans p).delivered.isSome = (marketStep upper m ans p).1.streamActive := by
  cases p with
  | tick symbol =>
    simp only [PriceWatch.note, marketStep]
    split <;> simpa using h
  | pollPrice item rest updated =>
    simp only [PriceWatch.note, marketStep]
    cases ans.price <;> cases own <;> simpa [Market.store] using h
  | fetchPrice symbol =>
    simp only [PriceWatch.note, marketStep]
    cases ans.price <;> simpa [Market.store] using h
  | connect =>
    simp only [PriceWatch.note, marketStep]
    cases ans.connects <;> simp
  | receive =>
    simp only [PriceWatch.note, marketStep]
    cases ans.frame <;> simpa [Market.setPrice, Market.store] using h
  | startStream => simpa [PriceWatch.note, marketStep] using h
  | sleep => simpa [PriceWatch.note, marketStep] using h
  | close => simp [PriceWatch.note, marketStep]
  | stopStream => rfl
  | getPrice => exact h
  | broadcast => exact h

/-- What others do is not fetched by the call. -/
theorem note_other : (g.note upper false ans p).fetched = g.fetched := by
  cases p with
  | receive =>
    simp only [PriceWatch.note]
    cases ans.frame <;> rfl
  | _ => rfl

/-- A call that does not read the cache returns what it fetched. -/
theorem note_own (hp : ∀ symbol, p = .tick symbol → m.streamActive = false)
    (h : g.fetched = polled (.await p)) :
    (g.note upper true ans p).fetched = polled (marketStep upper m ans p).2 := by
  cases p with
  | tick symbol =>
    rw [marketStep, hp symbol rfl, if_neg Bool.false_ne_true, pollLoop_polled]
    exact h
  | pollPrice item rest updated =>
    have h : g.fetched = updated := h
    simp only [PriceWatch.note, marketStep]
    cases ans.price <;> simp [h]
  | fetchPrice symbol =>
    simp only [PriceWatch.note, marketStep]
    cases ans.price <;> exact h
  | connect =>
    simp only [PriceWatch.note, marketStep]
    cases ans.connects
    · exact h.trans (disconnected_polled m).symm
    · exact h
  | receive =>
    simp only [PriceWatch.note, marketStep]
    cases ans.frame <;> exact h
  | startStream | sleep => exact h.trans (streamLoop_polled _).symm
  | close => exact h.trans (disconnected_polled m).symm
  | stopStream | getPrice | broadcast => exact h

/-- No step leads to a `tick` that has not started. -/
theorem marketStep_tick (symbol : Option String) :
    (marketStep upper m ans p).2 ≠ .await (.tick symbol) := by
  have hpoll : ∀ m updated rest, (pollLoop m updated rest).2 ≠ .await (.tick symbol) := by
    intro m updated rest
    cases rest <;> simp [pollLoop]
  have hloop : ∀ m, (streamLoop m).2 ≠ .await (.tick symbol) := by
    intro m
    unfold streamLoop
    split <;> simp
  have hdisconnected : ∀ m, (disconnected m).2 ≠ .await (.tick symbol) := by
    intro m
    unfold disconnected
    split <;> simp
  cases p with
  | tick => simp only [marketStep]; split <;> simp [hpoll]
  | pollPrice => simp only [marketStep]; cases ans.price <;> exact hpoll _ _ _
  | fetchPrice => simp only [marketStep]; cases ans.price <;> simp
  | connect => simp only [marketStep]; cases ans.connects <;> simp [hdisconnected]
  | receive => simp only [marketStep]; cases ans.frame <;> simp
  | startStream | sleep => exact hloop _
  | close => exact hdisconnected _
  | stopStream | getPrice | broadcast => simp [marketStep]

end

/-! ## Runs -/

section

variable {upper : String → String} {i : ℕ} {s s' : MarketState × PriceWatch}
  {act : ℕ × MarketAnswer} {ans : MarketAnswer}

/-- A step of the watched call itself. -/
theorem watchedMarket_own {p : MarketPhase} (hp : s.1.2[i]? = some (.await p))
    (hst : (watchedMarket upper i).step s (i, ans) s') :
    s'.1.2[i]? = some (marketStep upper s.1.1 ans p).2 ∧ s'.2 = s.2.note upper true ans p := by
  obtain ⟨hst, hg⟩ := hst
  refine ⟨(interleave_own hst hp).2, ?_⟩
  simpa [watchPrices, hp] using hg

/-- A step of another one. -/
theorem watchedMarket_other {n : AfterMarket} (hn : s.1.2[i]? = some n) (hi : act.1 ≠ i)
    (hst : (watchedMarket upper i).step s act s') :
    s'.1.2[i]? = some n ∧ s'.2.fetched = s.2.fetched ∧
      (s.2.delivered.isSome = s.1.1.streamActive →
        n.isDone = false → s'.2.delivered.isSome = s'.1.1.streamActive) := by
  refine ⟨(interleave_other hst.1 hi).trans hn, ?_⟩
  obtain ⟨⟨q, hq, e⟩, hg⟩ := hst
  rw [e]
  cases n with
  | done r =>
    have hsame : s'.2 = s.2 := by simpa [watchPrices, hn] using hg
    rw [hsame]
    exact ⟨rfl, fun _ h => by cases h⟩
  | await p =>
    have hnote : s'.2 = s.2.note upper false act.2 q := by
      simpa [watchPrices, hn, hq, hi] using hg
    rw [hnote]
    exact ⟨note_other, fun h _ => note_active h⟩

/-- After the return, the watch is over. -/
theorem watchedMarket_done {r : MarketReply} (hr : s.1.2[i]? = some (.done r))
    (hst : (watchedMarket upper i).step s act s') :
    s'.1.2[i]? = some (.done r) ∧ s'.2 = s.2 := by
  obtain ⟨hst, hg⟩ := hst
  have hne : act.1 ≠ i := by
    rintro rfl
    obtain ⟨q, hq, -⟩ := hst
    cases hr.symm.trans hq
  refine ⟨(interleave_other hst hne).trans hr, ?_⟩
  simpa [watchPrices, hr] using hg

theorem watchedMarket_returned {r : MarketReply} {acts : List (ℕ × MarketAnswer)}
    (hr : s.1.2[i]? = some (.done r)) (hrun : (watchedMarket upper i).Run s acts s') :
    s'.1.2[i]? = some (.done r) ∧ s'.2 = s.2 :=
  hrun.keeps (I := fun v : MarketState × PriceWatch => v.1.2[i]? = some (.done r) ∧ v.2 = s.2)
    (fun _ _ _ hv hst => ⟨(watchedMarket_done hv.1 hst).1,
      (watchedMarket_done hv.1 hst).2.trans hv.2⟩) ⟨hr, rfl⟩

/-- Before a `tick` starts, it has fetched nothing. -/
theorem tick_waiting (upper : String → String) (i : ℕ) (symbol : Option String) :
    (watchedMarket upper i).Inductive fun s => s.1.2[i]? = some (.await (.tick symbol)) →
      s.2.delivered.isSome = s.1.1.streamActive ∧ s.2.fetched = [] where
  init s h _ := by
    obtain ⟨⟨hm, -⟩, hg⟩ := h
    rw [hm, hg]
    exact ⟨rfl, rfl⟩
  step s act s' hI hst htick := by
    obtain ⟨j, ans⟩ := act
    have hne : j ≠ i := by
      rintro rfl
      obtain ⟨⟨p, hp, -⟩, -⟩ := id hst
      obtain ⟨hn, -⟩ := watchedMarket_own hp hst
      exact marketStep_tick symbol (Option.some.inj (hn.symm.trans htick))
    have hbefore : s.1.2[i]? = some (.await (.tick symbol)) :=
      (interleave_other hst.1 hne).symm.trans htick
    obtain ⟨hactive, hfetched⟩ := hI hbefore
    obtain ⟨-, hsame, hactive'⟩ := watchedMarket_other hbefore hne hst
    exact ⟨hactive' hactive rfl, hsame.trans hfetched⟩

/-- A call that polls has fetched what it will return. -/
def Polling (i : ℕ) (s : MarketState × PriceWatch) : Prop :=
  ∃ n, s.1.2[i]? = some n ∧ s.2.fetched = polled n ∧ ∀ symbol, n ≠ .await (.tick symbol)

theorem Polling.step (h : Polling i s) (hst : (watchedMarket upper i).step s act s') :
    Polling i s' := by
  obtain ⟨n, hn, hfetched, htick⟩ := h
  obtain ⟨j, ans⟩ := act
  by_cases hi : j = i
  · subst hi
    obtain ⟨⟨p, hp, -⟩, -⟩ := id hst
    cases hn.symm.trans hp
    obtain ⟨hn', hg⟩ := watchedMarket_own hp hst
    refine ⟨_, hn', ?_, fun symbol => marketStep_tick symbol⟩
    rw [hg]
    exact note_own (fun symbol e => absurd (congrArg Next.await e) (htick symbol)) hfetched
  · obtain ⟨hn', hsame, -⟩ := watchedMarket_other hn hi hst
    exact ⟨n, hn', hsame.trans hfetched, htick⟩

/-- **When a tick is current.** For each call of `tick`, in any interleaving with other calls and the
stream: the prices that it returns are all fetched by it, or of symbols that the active connection has
delivered when it returns, exactly when at its start the stream is not active, or has delivered each
symbol asked for that is in the cache. -/
theorem tick_current_iff {symbol : Option String} {acts : List (ℕ × MarketAnswer)} {prices : Prices}
    (hs : (watchedMarket upper i).Reach s) (hcall : s.1.2[i]? = some (.await (.tick symbol)))
    (hrun : (watchedMarket upper i).Run s ((i, ans) :: acts) s')
    (hret : s'.1.2[i]? = some (.done (.updated prices))) :
    (∀ x ∈ prices, s'.2.Current x) ↔
      (s.1.1.streamActive → ∀ item ∈ tickSymbols upper symbol, s.1.1.prices item ≠ none →
        s.2.Delivers item) := by
  obtain ⟨hactive, hfetched⟩ := (tick_waiting upper i symbol).reach hs hcall
  obtain ⟨s₁, hst, hrun⟩ := Sys.run_cons.mp hrun
  obtain ⟨hn, hg⟩ := watchedMarket_own hcall hst
  by_cases hon : s.1.1.streamActive
  · -- the cache is read: the call returns at once
    have hdone : s₁.1.2[i]? =
        some (.done (.updated (s.1.1.cached (tickSymbols upper symbol)))) := by
      rw [hn, marketStep, if_pos hon]
    obtain ⟨hdone', hsame⟩ := watchedMarket_returned hdone hrun
    cases hret.symm.trans hdone'
    rw [hsame.trans hg]
    show (∀ x ∈ _, s.2.Current x) ↔ _
    constructor
    · intro h _ item hitem hp
      obtain ⟨p, hp⟩ := Option.ne_none_iff_exists'.mp hp
      rcases h (item, p) (mem_cached.mpr ⟨hitem, hp⟩) with h | h
      · rw [hfetched] at h
        cases h
      · exact h
    · intro h x hx
      obtain ⟨hitem, hp⟩ := mem_cached.mp hx
      exact .inr (h hon x.1 hitem (by rw [hp]; exact Option.some_ne_none _))
  · -- the exchange is polled
    have hpolling : Polling i s₁ := by
      refine ⟨_, hn, ?_, fun symbol => marketStep_tick symbol⟩
      rw [hg]
      exact note_own (fun _ _ => Bool.eq_false_iff.mpr hon) hfetched
    obtain ⟨n, hn', hfetched', -⟩ :=
      hrun.keeps (fun v act v' hv hst => Polling.step hv hst) hpolling
    cases hret.symm.trans hn'
    refine iff_of_true (fun x hx => .inl ?_) fun h => absurd h hon
    rw [hfetched']
    exact hx

end

/-! ## Two ticks while the stream is active -/

namespace Sample

/-- A step of the watched market, computed. -/
def marketExec (i : ℕ) (s : MarketState × PriceWatch) (act : ℕ × MarketAnswer) :
    Option (MarketState × PriceWatch) :=
  (exec (marketStep id) (fun _ _ _ => True) s.1 act).map fun s' =>
    (s', watchPrices id i s.1 act s' s.2)

theorem marketExec_step {i : ℕ} {s s' : MarketState × PriceWatch} {act : ℕ × MarketAnswer}
    (h : marketExec i s act = some s') : (watchedMarket id i).step s act s' := by
  obtain ⟨s₁, hs, rfl⟩ := Option.map_eq_some_iff.mp h
  exact ⟨(exec_step hs).2, rfl⟩

/-- The stream, a query of a price and a `tick`, all for one symbol. -/
def marketStart (symbol : String) : MarketState × PriceWatch :=
  ((⟨fun _ => none, false, false⟩,
    [.await .startStream, .await (.getPrice symbol), .await (.tick (some symbol))]), {})

theorem marketStart_init (symbol : String) : (watchedMarket id 2).init (marketStart symbol) := by
  refine ⟨⟨rfl, fun t ht => ?_, fun i j hi hj => ?_⟩, rfl⟩
  · simp only [marketStart, List.mem_cons, List.not_mem_nil, or_false] at ht
    rcases ht with rfl | rfl | rfl <;> exact ⟨_, rfl, trivial⟩
  · have first : ∀ k : ℕ, (marketStart symbol).1.2[k]? = some (.await .startStream) → k = 0 := by
      rintro (_ | _ | _ | k) hk
      · rfl
      all_goals simp [marketStart] at hk
    rw [first i hi, first j hj]

/-- The stream connects, the price is queried, and `tick` is called. -/
def queried : List (ℕ × MarketAnswer) :=
  [(0, {}), (0, {}), (1, {}), (1, { price := some (dec 8 (-2)) }), (2, {})]

/-- The stream connects, and delivers a price of the symbol. -/
def delivered (symbol : String) : List (ℕ × MarketAnswer) :=
  [(0, {}), (0, {}), (0, { frame := .markPriceUpdate symbol (dec 42 3) })]

def called : AfterMarket → Option (Option String)
  | .await (.tick symbol) => some symbol
  | _ => none

theorem called_some {t : AfterMarket} {symbol : Option String} (h : called t = some symbol) :
    t = .await (.tick symbol) := by
  unfold called at h
  split at h
  · cases h
    rfl
  · cases h

def returned : AfterMarket → Option Prices
  | .done (.updated prices) => some prices
  | _ => none

theorem returned_some {t : AfterMarket} {prices : Prices} (h : returned t = some prices) :
    t = .done (.updated prices) := by
  unfold returned at h
  split at h
  · cases h
    rfl
  · cases h

end Sample

open Sample in
/-- The stream does not subscribe to this symbol: the price is one that was queried at some time. -/
theorem tick_abandoned : ∃ s prices, (watchedMarket id 2).Reach s ∧
    s.1.2[2]? = some (.done (.updated prices)) ∧ ∃ x ∈ prices, ¬s.2.Current x := by
  have hrun : (queried.foldlM (marketExec 2) (marketStart "DOGEUSDT")).map
        (fun s : MarketState × PriceWatch => (s.1.2[2]?.bind returned, s.2)) =
      some (some [("DOGEUSDT", dec 8 (-2))], ⟨some [], []⟩) := by
    decide +kernel
  obtain ⟨s, hs, h⟩ := Option.map_eq_some_iff.mp hrun
  simp only [Prod.mk.injEq] at h
  obtain ⟨hret, hg⟩ := h
  obtain ⟨t, ht, hprices⟩ := Option.bind_eq_some_iff.mp hret
  refine ⟨s, _, (Sys.Reach.init (marketStart_init "DOGEUSDT")).foldlM
    (fun _ _ _ _ h => marketExec_step h) hs, ht.trans (congrArg some (returned_some hprices)),
    _, List.mem_singleton_self _, ?_⟩
  rw [hg]
  simp [PriceWatch.Current, PriceWatch.Delivers]

open Sample in
/-- A symbol that the stream subscribes to, after its first message. -/
theorem tick_current_iff_btc : ∃ s s' prices,
    (watchedMarket id 2).Run (marketStart "BTCUSDT") (delivered "BTCUSDT") s ∧
      (watchedMarket id 2).Run s [(2, {})] s' ∧ prices = [("BTCUSDT", dec 42 3)] ∧
      s'.1.2[2]? = some (.done (.updated prices)) ∧ ∀ x ∈ prices, s'.2.Current x := by
  have hrun : ((delivered "BTCUSDT").foldlM (marketExec 2) (marketStart "BTCUSDT")).bind (fun s =>
        (marketExec 2 s (2, {})).map fun s' =>
          (s.1.2[2]?.bind called, s'.1.2[2]?.bind returned, s.2)) =
      some (some (some "BTCUSDT"), some [("BTCUSDT", dec 42 3)], ⟨some ["BTCUSDT"], []⟩) := by
    decide +kernel
  obtain ⟨s, hs, h⟩ := Option.bind_eq_some_iff.mp hrun
  obtain ⟨s', hs', h⟩ := Option.map_eq_some_iff.mp h
  simp only [Prod.mk.injEq] at h
  obtain ⟨hcall, hret, hg⟩ := h
  obtain ⟨t, ht, hsymbol⟩ := Option.bind_eq_some_iff.mp hcall
  obtain ⟨t', ht', hprices⟩ := Option.bind_eq_some_iff.mp hret
  cases called_some hsymbol
  cases returned_some hprices
  have hbefore : (watchedMarket id 2).Run (marketStart "BTCUSDT") (delivered "BTCUSDT") s :=
    .foldlM (f := marketExec 2) (fun _ _ _ _ h => marketExec_step h) hs
  have htick : (watchedMarket id 2).Run s [(2, {})] s' :=
    .cons (marketExec_step hs') (.nil (S := watchedMarket id 2) s')
  refine ⟨s, s', _, hbefore, htick, rfl, ht', ?_⟩
  refine (tick_current_iff ((Sys.Reach.init (marketStart_init _)).run hbefore) ht htick ht').mpr ?_
  intro _ item hitem _
  rw [hg]
  exact ⟨_, rfl, by simpa [tickSymbols] using hitem⟩

end CryptoExchange
