import CryptoExchange.Realtime.Prices
import CryptoExchange.Sessions.UserData

/-!
# Reconnection

`_stream_loop` of the three services that read from the exchange (`market_stream.py`,
`kline_stream.py`, `user_data_stream.py` in `app/services`). Each is a loop that tries again, with a
`_connect_and_process` of its own.

* `MarketStream.loop`, `KlineStream.loop`, and `UserData.streamLoop`.
* `MarketStream.loop_untimed`: without its delays, the first is the stream of the market prices.
* `reconnects`: how long each waits before it connects again, and that only `stop` ends it.
-/

namespace CryptoExchange

open Lib

/-! ## The mark prices -/

namespace MarketStream

/-- The awaits of `_connect_and_process`. -/
inductive Phase where
  | connect
  | receive
  | broadcast
  | close

structure StreamAnswer where
  market : MarketAnswer := {}
  /-- The connection was closed properly. -/
  properly : Bool := true

variable (upper : String → String)

/-- `_connect_and_process`; it ends with whether it returned. -/
def attempt (m : Market) (ans : StreamAnswer) : Phase → Market × Next Phase Bool
  | .connect =>
    if ans.market.connects then ({ m with streamActive := true }, .await .receive)
    else (m, .done false)
  | .receive =>
    match ans.market.frame with
    | .markPriceUpdate symbol p => (m.setPrice upper symbol p, .await .broadcast)
    | .other => (m, .await .receive)
    | .closed => (m, .await .close)
  | .broadcast => (m, .await .receive)
  | .close => (m, .done ans.properly)

def loop : Retry Market StreamAnswer Phase where
  base := reconnectBaseDelay
  cap := maxReconnectDelay
  base_le := reconnectBaseDelay_le
  running := Market.running
  start := .connect
  attempt := attempt upper
  settle := Market.inactive
  refresh := none

/-- The phase of the stream without the delay. -/
def untimed : RetryPhase Phase → MarketPhase
  | .attempt _ .connect => .connect
  | .attempt _ .receive => .receive
  | .attempt _ .broadcast => .broadcast
  | .attempt _ .close => .close
  | .sleep _ | .refresh _ => .sleep

variable {upper}

/-- **Refinement.** The stream of the market prices is the loop without its delays. -/
theorem loop_untimed (m : Market) (ans : StreamAnswer) (p : RetryPhase Phase) :
    marketStep upper m ans.market (untimed p) =
      (((loop upper).step m ans p).1,
        ((loop upper).step m ans p).2.map untimed fun _ => .stopped) := by
  have again : ∀ delay, streamLoop m = (((loop upper).again m delay).1,
      ((loop upper).again m delay).2.map untimed fun _ => .stopped) := by
    intro delay
    unfold streamLoop Retry.again
    by_cases hr : m.running <;> simp [loop, hr, Next.map, untimed]
  have settled : ∀ delay, disconnected m = (((loop upper).settled m.inactive delay).1,
      ((loop upper).settled m.inactive delay).2.map untimed fun _ => .stopped) := by
    intro delay
    unfold disconnected Retry.settled
    by_cases hr : m.running <;> simp [loop, hr, Next.map, untimed, Market.inactive]
  cases p with
  | attempt delay p =>
    cases p with
    | connect =>
      simp only [untimed, marketStep]
      by_cases hc : ans.market.connects
      · simp [Retry.step, loop, attempt, hc, Next.map, untimed]
      · rw [if_neg hc]
        simpa [Retry.step, loop, attempt, hc] using settled delay
    | receive =>
      cases hf : ans.market.frame <;>
        simp [marketStep, Retry.step, loop, attempt, hf, Next.map, untimed]
    | broadcast => rfl
    | close => exact settled (if ans.properly then 5 else delay)
  | sleep delay => exact again (min (delay * 2) 300)
  | refresh delay => exact again delay

end MarketStream

/-! ## The candles -/

namespace KlineStream

structure Service where
  volatility : Volatility
  running : Bool

inductive Phase where
  | connect
  | receive

/-- What comes next on the connection. -/
inductive Frame where
  | message (m : Message)
  | closed (properly : Bool)

structure StreamAnswer where
  fails : Bool := false
  frame : Frame

variable (float : ToFloat) (cfg : Config)

/-- `_connect_and_process`; it ends with whether it returned. -/
def attempt (s : Service) (ans : StreamAnswer) : Phase → Service × Next Phase Bool
  | .connect => if ans.fails then (s, .done false) else (s, .await .receive)
  | .receive =>
    match ans.frame with
    | .message m => ({ s with volatility := (handle float cfg s.volatility m).1 }, .await .receive)
    | .closed properly => (s, .done properly)

def loop : Retry Service StreamAnswer Phase where
  base := reconnectBaseDelay
  cap := maxReconnectDelay
  base_le := reconnectBaseDelay_le
  running := Service.running
  start := .connect
  attempt := attempt float cfg
  settle := id
  refresh := none

end KlineStream

/-! ## All three -/

theorem MarketStream.keepsRunning (upper : String → String) :
    (MarketStream.loop upper).KeepsRunning where
  attempt m ans p h := by
    have h : m.running = true := h
    show (MarketStream.attempt upper m ans p).1.running = true
    cases p with
    | connect | receive =>
      simp only [MarketStream.attempt]
      split <;> exact h
    | broadcast | close => exact h
  settle _ h := h
  refresh f hf := by cases hf

theorem KlineStream.keepsRunning (float : KlineStream.ToFloat) (cfg : Config) :
    (KlineStream.loop float cfg).KeepsRunning where
  attempt s ans p h := by
    have h : s.running = true := h
    show (KlineStream.attempt float cfg s ans p).1.running = true
    cases p <;>
    · simp only [KlineStream.attempt]
      split <;> exact h
  settle _ h := h
  refresh f hf := by cases hf

namespace UserData

variable {cfg : Config} {c : Column} {decimal : ToDecimal}

theorem takeTurn_running (w : Shared) (t : Option Turn) : (takeTurn w t).1.running = w.running := by
  unfold takeTurn
  split
  · rfl
  · rfl
  · split <;> rfl
  · rfl

theorem attempt_running (w : Shared) (ans : StreamAnswer) (p : Phase) :
    (attempt cfg c decimal w ans p).1.running = w.running := by
  cases p with
  | connect =>
    simp only [attempt]
    split <;> rfl
  | broadcast =>
    simp only [attempt]
    split <;> rfl
  | receive =>
    simp only [attempt]
    split
    · exact takeTurn_running _ _
    · rfl
  | apply p h =>
    simp only [attempt]
    split
    · rfl
    · exact takeTurn_running _ _
    · exact takeTurn_running _ _

theorem keepsRunning (cfg : Config) (c : Column) (decimal : ToDecimal) :
    (streamLoop cfg c decimal).KeepsRunning where
  attempt w ans p h := (attempt_running w ans p).trans h
  settle _ h := h
  refresh f hf w ans h := by
    cases hf
    dsimp only
    split <;> exact h

end UserData

/-- What a loop does between its connections, whatever else happens to the service. -/
structure Reconnects {W A P : Type} (r : Retry W A P) : Prop where
  /-- It waits 5 s after the first attempt and after one that returned, and twice as long after each
  further one that raised, but 5 min at most. -/
  delays : ∀ s, r.retrying.Reach s → ∀ (i : ℕ) (lap : Retry.Lap), s.2[i]? = some lap →
    ∀ delay ∈ lap.slept, delay = min (5 * 2 ^ (Retry.row (s.2.take (i + 1)) - 1)) 300
  /-- It waits after every attempt but one that ends it. -/
  waits : ∀ s, r.retrying.Reach s → ∀ (i : ℕ) (lap : Retry.Lap), s.2[i]? = some lap →
    lap.slept = none → i + 1 = s.2.length ∧ s.1.2 = .done ()
  /-- It does not end while nobody stops it. -/
  goes_on : ∀ s as s', (r.retrying.restrict r.Undisturbed).Run s as s' → r.running s.1.1 = true →
    s.1.2.isDone = false → s'.1.2.isDone = false

theorem Reconnects.of_keepsRunning {W A P : Type} {r : Retry W A P} (hb : r.base = 5)
    (hc : r.cap = 300) (hk : r.KeepsRunning) : Reconnects r where
  delays s h i lap hlap delay hd := by
    rw [← hb, ← hc]
    exact ((Retry.slept_eq.reach h).2.slept i lap hlap) delay hd
  waits s h i lap hlap hnone := (Retry.slept_eq.reach h).2.last i lap hlap hnone
  goes_on s as s' h hr hn := (Retry.goes_on hk h hr hn).2

/-- **Reconnection.** Each of the three services connects again for as long as it is not stopped,
whether a connection was closed, broke, or was not made. After the first attempt and after one that
returned it waits 5 seconds, and after each further one that raised twice as long as before, but
never more than 300: the delay doubles after the sleep. -/
theorem reconnects (upper : String → String) (float : KlineStream.ToFloat) (cfg : Config)
    (c : Column) (decimal : UserData.ToDecimal) :
    Reconnects (MarketStream.loop upper) ∧ Reconnects (KlineStream.loop float cfg) ∧
      Reconnects (UserData.streamLoop cfg c decimal) :=
  ⟨.of_keepsRunning rfl rfl (MarketStream.keepsRunning upper),
    .of_keepsRunning rfl rfl (KlineStream.keepsRunning float cfg),
    .of_keepsRunning rfl rfl (UserData.keepsRunning cfg c decimal)⟩

end CryptoExchange
